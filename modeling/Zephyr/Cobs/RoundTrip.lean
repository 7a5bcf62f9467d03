import Zephyr.Cobs.Cobs

namespace Zephyr.Cobs

open Zephyr.Lib

theorem xor_xor_cancel (a s : UInt8) : a ^^^ s ^^^ s = a := by
  rw [UInt8.xor_assoc, UInt8.xor_self, UInt8.xor_zero]

theorem xor_eq_self_iff {a s : UInt8} : a ^^^ s = s ↔ a = 0 := by
  constructor
  · intro h
    simpa [xor_xor_cancel, UInt8.xor_self] using congrArg (· ^^^ s) h
  · rintro rfl
    exact UInt8.zero_xor

-- The calls made to a callback, oldest first.
abbrev Log := List (Option (List UInt8))

-- The callback cb with every call made to it logged.
def logged {σ : Type} (cb : StreamCb σ) : StreamCb (σ × Log) :=
  fun ctx ch => ((cb ctx.1 ch).1, ((cb ctx.1 ch).2, ctx.2 ++ [ch]))

def NeverFails {σ : Type} (cb : StreamCb σ) : Prop := ∀ u ch, 0 ≤ (cb u ch).1

-- The bytes passed in the calls of a log, and its (NULL, 0) calls.
def sentBytes (log : Log) : List UInt8 := (log.filterMap id).flatten

def delimsOf (log : Log) : Nat := log.count none

@[simp] theorem sentBytes_nil : sentBytes [] = [] := rfl

@[simp] theorem sentBytes_append (l l' : Log) : sentBytes (l ++ l') = sentBytes l ++ sentBytes l' := by
  simp [sentBytes]

@[simp] theorem sentBytes_cons_some (bs : List UInt8) (l : Log) : sentBytes (some bs :: l) = bs ++ sentBytes l := by
  simp [sentBytes]

@[simp] theorem sentBytes_cons_none (l : Log) : sentBytes (none :: l) = sentBytes l := by
  simp [sentBytes]

@[simp] theorem sentBytes_singletons (f : List UInt8) : sentBytes (f.map fun b => some [b]) = f := by
  induction f with
  | nil => rfl
  | cons b f ih => simpa using ih

@[simp] theorem delimsOf_append (l l' : Log) : delimsOf (l ++ l') = delimsOf l + delimsOf l' := by
  simp [delimsOf]

@[simp] theorem delimsOf_singletons (f : List UInt8) : delimsOf (f.map fun b => some [b]) = 0 := by
  simp [delimsOf, List.count_eq_zero]

-- A group as the encoder passes it on: the code byte and the group's bytes, XOR the delimiter.
def groupBytes (s : UInt8) (f : List UInt8) : List UInt8 := ((f.length + 1).toUInt8 :: f).map (· ^^^ s)

section Decoder

variable {υ : Type} (cb' : StreamCb υ) (hcb' : NeverFails cb')

include hcb'

theorem decoder_call_logged (dec : Decoder (υ × Log)) (hc : dec.cb = logged cb') (ch : Option (List UInt8)) :
    ¬(dec.call ch).1 < 0 ∧ (dec.call ch).2 =
      { dec with cbUserData := ((cb' dec.cbUserData.1 ch).2, dec.cbUserData.2 ++ [ch]) } := by
  refine ⟨?_, by simp only [Decoder.call, hc, logged]⟩
  simp only [Decoder.call, hc, logged]
  have := hcb' dec.cbUserData.1 ch
  omega

-- A byte of a group's data: passed on, one fewer to come.
theorem decoderByte_data (dec : Decoder (υ × Log)) (hc : dec.cb = logged cb') (b : UInt8)
    (hb : b ≠ 0) (hi : dec.codeIndex ≠ 0) :
    decoderByte dec (b ^^^ customDelimiter dec.flags) =
      (none, { dec with
        codeIndex := dec.codeIndex - 1
        cbUserData := ((cb' dec.cbUserData.1 (some [b])).2, dec.cbUserData.2 ++ [some [b]]) }) := by
  obtain ⟨hr, hd⟩ := decoder_call_logged cb' hcb' dec hc (some [b])
  have hpos : dec.codeIndex > 0 := by
    rw [gt_iff_lt, UInt8.lt_iff_toNat_lt]
    have := UInt8.toNat_inj.not.mpr hi
    simp only [UInt8.toNat_zero] at this ⊢
    omega
  simp only [decoderByte, xor_xor_cancel, if_neg hb, if_pos hpos]
  rcases hcall : dec.call (some [b]) with ⟨r, d⟩
  rw [hcall] at hr hd
  simp only at hr hd
  simp only [if_neg hr, hd]

-- The bytes of a group's data, with as many still to come: passed on one by one.
theorem runStream_decoder_data (f : List UInt8) (hf : 0 ∉ f) (dec : Decoder (υ × Log)) (hc : dec.cb = logged cb')
    (hi : dec.codeIndex.toNat = f.length) :
    ∃ u, runStream decoderByte dec (f.map (· ^^^ customDelimiter dec.flags)) =
      (none, { dec with codeIndex := 0, cbUserData := (u, dec.cbUserData.2 ++ f.map fun b => some [b]) }) := by
  induction f generalizing dec with
  | nil =>
    have : dec.codeIndex = 0 := UInt8.toNat_inj.mp (by simpa using hi)
    exact ⟨dec.cbUserData.1, by simp [← this]⟩
  | cons b f ih =>
    have hb : b ≠ 0 := fun h => hf (h ▸ List.mem_cons_self)
    have hi0 : dec.codeIndex ≠ 0 := fun h => by simp [h] at hi
    rw [List.map_cons, runStream_cons_of_ok (decoderByte_data cb' hcb' dec hc b hb hi0)]
    have hle : (1 : UInt8) ≤ dec.codeIndex := by
      rw [UInt8.le_iff_toNat_le]
      simp only [List.length_cons] at hi
      simp [hi]
    obtain ⟨u, hu⟩ := ih (fun h => hf (List.mem_cons_of_mem b h))
      { dec with
        codeIndex := dec.codeIndex - 1
        cbUserData := ((cb' dec.cbUserData.1 (some [b])).2, dec.cbUserData.2 ++ [some [b]]) } hc
      (by rw [UInt8.toNat_sub_of_le _ _ hle, hi]; simp)
    exact ⟨u, by simpa using hu⟩

-- A code byte between groups: the zero that ended the group before, unless it
-- was a full one or the frame starts here, and then k - 1 bytes to come.
theorem decoderByte_code (dec : Decoder (υ × Log)) (hc : dec.cb = logged cb') (k : UInt8) (hk : k ≠ 0)
    (hi : dec.codeIndex = 0) :
    ∃ u, decoderByte dec (k ^^^ customDelimiter dec.flags) =
      (none, { dec with
        code := k
        codeIndex := k - 1
        cbUserData := (u, dec.cbUserData.2 ++ if dec.code ≠ 0xff then [some [0]] else []) }) := by
  have hpos : ¬dec.codeIndex > 0 := by simp [hi]
  simp only [decoderByte, xor_xor_cancel, if_neg hk, if_neg hpos]
  by_cases hcode : dec.code ≠ 0xff
  · obtain ⟨hr, hd⟩ := decoder_call_logged cb' hcb' { dec with codeIndex := k } hc (some [0])
    rcases hcall : ({ dec with codeIndex := k } : Decoder (υ × Log)).call (some [0]) with ⟨r, d⟩
    rw [hcall] at hr hd
    simp only at hr hd
    refine ⟨(cb' dec.cbUserData.1 (some [0])).2, ?_⟩
    simp only [if_pos hcode, if_neg hr, hd]
  · refine ⟨dec.cbUserData.1, ?_⟩
    simp only [if_neg hcode, Int.lt_irrefl, if_false, List.append_nil]

-- A whole group between groups.
theorem runStream_decoder_group (f : List UInt8) (hf : 0 ∉ f) (hlen : f.length ≤ 254) (dec : Decoder (υ × Log))
    (hc : dec.cb = logged cb') (hi : dec.codeIndex = 0) :
    ∃ u, runStream decoderByte dec (groupBytes (customDelimiter dec.flags) f) =
      (none, { dec with
        code := (f.length + 1).toUInt8
        codeIndex := 0
        cbUserData := (u, dec.cbUserData.2 ++ (if dec.code ≠ 0xff then [some [0]] else []) ++
          f.map fun b => some [b]) }) := by
  have hk : (f.length + 1).toUInt8.toNat = f.length + 1 := UInt8.toNat_ofNat_of_lt' (by unfold UInt8.size; omega)
  have hk0 : (f.length + 1).toUInt8 ≠ 0 := fun h => by simp [h] at hk
  obtain ⟨u, hu⟩ := decoderByte_code cb' hcb' dec hc _ hk0 hi
  rw [groupBytes, List.map_cons, runStream_cons_of_ok hu]
  have hle : (1 : UInt8) ≤ (f.length + 1).toUInt8 := by
    rw [UInt8.le_iff_toNat_le, hk]
    simp
  obtain ⟨u', hu'⟩ := runStream_decoder_data cb' hcb' f hf
    { dec with
      code := (f.length + 1).toUInt8
      codeIndex := (f.length + 1).toUInt8 - 1
      cbUserData := (u, dec.cbUserData.2 ++ if dec.code ≠ 0xff then [some [0]] else []) } hc
    (by rw [UInt8.toNat_sub_of_le _ _ hle, hk]; simp)
  exact ⟨u', by simpa using hu'⟩

-- The trailing delimiter between groups: the (NULL, 0) call, and the frame starts again.
theorem decoderByte_delimiter (dec : Decoder (υ × Log)) (hc : dec.cb = logged cb') (ht : hasTrailing dec.flags)
    (hi : dec.codeIndex = 0) :
    ∃ u, decoderByte dec (customDelimiter dec.flags) =
      (none, { dec with code := 0xff, codeIndex := 0, cbUserData := (u, dec.cbUserData.2 ++ [none]) }) := by
  have hd : ¬(dec.flags &&& trailingDelimiter = 0 ∨ dec.needsMoreData = true) := by
    simp only [hasTrailing, ne_eq, decide_eq_true_eq] at ht
    simp [ht, Decoder.needsMoreData, hi]
  obtain ⟨hr, hdec⟩ := decoder_call_logged cb' hcb' dec hc none
  simp only [decoderByte, UInt8.xor_self, if_true, if_neg hd]
  rcases hcall : dec.call none with ⟨r, d⟩
  rw [hcall] at hr hdec
  simp only at hr hdec
  exact ⟨(cb' dec.cbUserData.1 none).2, by simp only [if_neg hr, hdec, Decoder.reset]⟩

end Decoder

theorem sentinel_map (s : UInt8) (l : List UInt8) : (if s ≠ 0 then l.map (· ^^^ s) else l) = l.map (· ^^^ s) := by
  by_cases hs : s = 0
  · subst hs
    simp
  · rw [if_pos hs]

@[simp] theorem length_groupBytes (s : UInt8) (f : List UInt8) : (groupBytes s f).length = f.length + 1 := by
  simp [groupBytes]

-- No byte of a group is the delimiter: the code byte and the group's bytes are not zero.
theorem delimiter_not_mem_groupBytes (s : UInt8) (f : List UInt8) (hf : 0 ∉ f) (hlen : f.length ≤ 254) :
    s ∉ groupBytes s f := by
  have hk : (f.length + 1).toUInt8.toNat = f.length + 1 := UInt8.toNat_ofNat_of_lt' (by unfold UInt8.size; omega)
  simp only [groupBytes, List.map_cons, List.mem_cons, List.mem_map, xor_eq_self_iff, not_or, not_exists, not_and]
  refine ⟨fun h => ?_, fun b hb h => hf (h ▸ hb)⟩
  rw [xor_eq_self_iff.mp h.symm] at hk
  simp at hk

section Encoder

variable {τ : Type} (cb : StreamCb τ) (hcb : NeverFails cb)

include hcb

theorem encoder_call_logged (enc : Encoder (τ × Log)) (hc : enc.cb = logged cb) (ch : Option (List UInt8)) :
    ¬(enc.call ch).1 < 0 ∧ (enc.call ch).2 =
      { enc with cbUserData := ((cb enc.cbUserData.1 ch).2, enc.cbUserData.2 ++ [ch]) } := by
  refine ⟨?_, by simp only [Encoder.call, hc, logged]⟩
  simp only [Encoder.call, hc, logged]
  have := hcb enc.cbUserData.1 ch
  omega

theorem cobsEncoderFinish_logged (enc : Encoder (τ × Log)) (hc : enc.cb = logged cb) (close : Bool) :
    ∃ u, cobsEncoderFinish enc close = (0, { enc with
      fragment := []
      cbUserData := (u, enc.cbUserData.2 ++ some (groupBytes (customDelimiter enc.flags) enc.fragment) ::
        if close && hasTrailing enc.flags then [some [customDelimiter enc.flags]] else []) }) := by
  obtain ⟨hr, hd⟩ := encoder_call_logged cb hcb enc hc (some (groupBytes (customDelimiter enc.flags) enc.fragment))
  simp only [cobsEncoderFinish, sentinel_map]
  rw [show ((enc.fragment.length + 1).toUInt8 :: enc.fragment).map (· ^^^ customDelimiter enc.flags) =
    groupBytes (customDelimiter enc.flags) enc.fragment from rfl]
  rcases hcall : enc.call (some (groupBytes (customDelimiter enc.flags) enc.fragment)) with ⟨r, e1⟩
  rw [hcall] at hr hd
  simp only at hr hd
  simp only [if_neg hr]
  have hc1 : e1.cb = logged cb := by rw [hd]; exact hc
  have hf1 : e1.flags = enc.flags := by rw [hd]
  by_cases ht : (close && hasTrailing enc.flags) = true
  · obtain ⟨hr2, hd2⟩ := encoder_call_logged cb hcb e1 hc1 (some [customDelimiter enc.flags])
    rcases hcall2 : e1.call (some [customDelimiter enc.flags]) with ⟨r2, e2⟩
    rw [hcall2] at hr2 hd2
    simp only at hr2 hd2
    have ht1 : (close && decide (e1.flags &&& trailingDelimiter ≠ 0)) = true := by
      simpa [hasTrailing, hf1] using ht
    simp only [if_pos ht1, if_neg hr2]
    refine ⟨(cb e1.cbUserData.1 (some [customDelimiter enc.flags])).2, ?_⟩
    rw [hd2, hd]
    simp [Encoder.reset, ht]
  · have ht1 : ¬(close && decide (e1.flags &&& trailingDelimiter ≠ 0)) = true := by
      simpa [hasTrailing, hf1] using ht
    simp only [if_neg ht1]
    refine ⟨(cb enc.cbUserData.1 (some (groupBytes (customDelimiter enc.flags) enc.fragment))).2, ?_⟩
    rw [hd]
    simp [Encoder.reset, ht]

theorem cobsEncoderFinish_fragment (enc : Encoder (τ × Log)) (hc : enc.cb = logged cb) (close : Bool) :
    (cobsEncoderFinish enc close).2.fragment = [] := by
  obtain ⟨u, hu⟩ := cobsEncoderFinish_logged cb hcb enc hc close
  rw [hu]

-- A full group goes out first, and the byte meets an empty one.
theorem encoderByte_of_full (enc : Encoder (τ × Log)) (hc : enc.cb = logged cb) (hfull : enc.fragment.length = 254)
    (x : UInt8) : encoderByte enc x = encoderByte (cobsEncoderFinish enc false).2 x := by
  obtain ⟨u, hu⟩ := cobsEncoderFinish_logged cb hcb enc hc false
  have h1 : enc.fragment.length + 1 = 0xff := by omega
  simp only [encoderByte, if_pos h1, hu, List.length_nil, Nat.zero_add]
  simp

theorem encoderByte_zero (enc : Encoder (τ × Log)) (hc : enc.cb = logged cb) (h : enc.fragment.length ≠ 254) :
    encoderByte enc 0 = (none, (cobsEncoderFinish enc false).2) := by
  obtain ⟨u, hu⟩ := cobsEncoderFinish_logged cb hcb enc hc false
  have h1 : ¬enc.fragment.length + 1 = 0xff := by omega
  simp only [encoderByte, if_neg h1, hu]
  simp

end Encoder

theorem encoderByte_nonzero {σ : Type} (enc : Encoder σ) (h : enc.fragment.length ≠ 254) {x : UInt8} (hx : x ≠ 0) :
    encoderByte enc x = (none, { enc with fragment := enc.fragment ++ [x] }) := by
  have h1 : ¬enc.fragment.length + 1 = 0xff := by omega
  simp [encoderByte, h1, hx]

-- cobs_encoder_write on each part in turn, then cobs_encoder_close: what each
-- call returns, and the encoder after the close.
def encodeParts {σ : Type} (enc : Encoder σ) : List (List UInt8) → List Int × Encoder σ
  | [] => ([(cobsEncoderClose enc).1], (cobsEncoderClose enc).2)
  | q :: qs =>
    let r := cobsEncoderWrite enc q
    (r.1 :: (encodeParts r.2 qs).1, (encodeParts r.2 qs).2)

def decodeParts {σ : Type} (dec : Decoder σ) : List (List UInt8) → List Int × Decoder σ
  | [] => ([(cobsDecoderClose dec).1], (cobsDecoderClose dec).2)
  | q :: qs =>
    let r := cobsDecoderWrite dec q
    (r.1 :: (decodeParts r.2 qs).1, (decodeParts r.2 qs).2)

-- Writes that run through without error return their lengths, and the close
-- finds the decoder where the run over all the bytes left it.
theorem decodeParts_of_ok {σ : Type} (dparts : List (List UInt8)) (dec d : Decoder σ)
    (h : runStream decoderByte dec dparts.flatten = (none, d)) :
    decodeParts dec dparts = (dparts.map (fun q => (q.length : Int)) ++ [(cobsDecoderClose d).1], (cobsDecoderClose d).2) := by
  induction dparts generalizing dec with
  | nil =>
    simp only [List.flatten_nil, runStream_nil, Prod.mk.injEq] at h
    rw [← h.2]
    rfl
  | cons q qs ih =>
    rw [List.flatten_cons, runStream_append_eq_ok] at h
    obtain ⟨d1, h1, h2⟩ := h
    simp only [decodeParts, cobsDecoderWrite, h1, ih d1 h2, List.map_cons, List.cons_append]

section RoundTrip

variable {τ υ : Type} (cb : StreamCb τ) (hcb : NeverFails cb) (cb' : StreamCb υ) (hcb' : NeverFails cb') (u' : υ)
  (flags : Nat)

-- The decoder as cobs_decoder_init leaves it.
def decStart : Decoder (υ × Log) := ⟨logged cb', (u', []), 0xff, 0, flags⟩

-- A decoder between groups that has passed on all of p but the zero ending its
-- last group and the bytes f the encoder still holds.
structure Between (p f : List UInt8) (dec : Decoder (υ × Log)) : Prop where
  cb_eq : dec.cb = logged cb'
  flags_eq : dec.flags = flags
  index_zero : dec.codeIndex = 0
  no_delims : delimsOf dec.cbUserData.2 = 0
  decoded : p = sentBytes dec.cbUserData.2 ++ (if dec.code ≠ 0xff then [0] else []) ++ f

-- The encoder after the input p: its open group f holds p's last bytes, what it
-- has passed on has no delimiter and is short enough, and a decoder fed it
-- stands between groups having decoded the rest of p.
structure EncInv (p : List UInt8) (enc : Encoder (τ × Log)) : Prop where
  cb_eq : enc.cb = logged cb
  flags_eq : enc.flags = flags
  frag_le : enc.fragment.length ≤ 254
  frag_ne : 0 ∉ enc.fragment
  sent_ne : customDelimiter flags ∉ sentBytes enc.cbUserData.2
  len_le : 254 * ((sentBytes enc.cbUserData.2).length + enc.fragment.length) + enc.fragment.length ≤ 255 * p.length
  decodes : ∃ dec, runStream decoderByte (decStart cb' u' flags) (sentBytes enc.cbUserData.2) = (none, dec) ∧
    Between cb' flags p enc.fragment dec

theorem sentBytes_zero (c : Prop) [Decidable c] : sentBytes (if c then [some [0]] else []) = if c then [0] else [] := by
  split <;> rfl

theorem delimsOf_zero (c : Prop) [Decidable c] : delimsOf (if c then [some [0]] else []) = 0 := by
  split <;> rfl

-- A non-zero byte joins the open group.
theorem EncInv.push {p : List UInt8} {enc : Encoder (τ × Log)} (h : EncInv cb cb' u' flags p enc)
    (hn : enc.fragment.length ≠ 254) {x : UInt8} (hx : x ≠ 0) :
    EncInv cb cb' u' flags (p ++ [x]) { enc with fragment := enc.fragment ++ [x] } := by
  obtain ⟨dec, hrun, hb⟩ := h.decodes
  have hle := h.frag_le
  have hlen := h.len_le
  refine ⟨h.cb_eq, h.flags_eq, ?_, ?_, h.sent_ne, ?_, dec, hrun, ⟨hb.cb_eq, hb.flags_eq, hb.index_zero, hb.no_delims, ?_⟩⟩
  · simp only [List.length_append, List.length_singleton]
    omega
  · simp [h.frag_ne, Ne.symm hx]
  · simp only [List.length_append, List.length_singleton]
    omega
  · rw [hb.decoded]
    simp

theorem encInv_start (u : τ) :
    EncInv cb cb' u' flags [] ⟨logged cb, (u, []), [], flags⟩ :=
  ⟨rfl, rfl, by simp, by simp, by simp, by simp, decStart cb' u' flags, rfl,
    ⟨rfl, rfl, rfl, rfl, by simp [decStart]⟩⟩

-- The bound of COBS_MAX_ENCODED_LEN, from the invariant's count of groups.
theorem EncInv.close_length {p : List UInt8} {e : Encoder (τ × Log)} (h : EncInv cb cb' u' flags p e) :
    (sentBytes e.cbUserData.2 ++ groupBytes (customDelimiter flags) e.fragment ++
      if hasTrailing flags then [customDelimiter flags] else []).length ≤ cobsMaxEncodedLen p.length flags := by
  have hlen := h.len_le
  unfold cobsMaxEncodedLen
  simp only [hasTrailing, ne_eq, decide_eq_true_eq]
  split
  · simp only [List.length_append, length_groupBytes, List.length_singleton]
    omega
  · simp only [List.length_append, length_groupBytes, List.length_nil]
    omega

include hcb'

-- A group sent from between groups: the decoder passes on p, the zero of the
-- group before included, and waits for the next group to send this one's zero.
theorem Between.group {p f : List UInt8} {dec : Decoder (υ × Log)} (h : Between cb' flags p f dec) (hf : 0 ∉ f)
    (hlen : f.length ≤ 254) :
    ∃ dec', runStream decoderByte dec (groupBytes (customDelimiter flags) f) = (none, dec') ∧
      sentBytes dec'.cbUserData.2 = p ∧ Between cb' flags (p ++ if f.length = 254 then [] else [0]) [] dec' := by
  obtain ⟨u, hu⟩ := runStream_decoder_group cb' hcb' f hf hlen dec h.cb_eq h.index_zero
  rw [h.flags_eq] at hu
  have hk : (f.length + 1).toUInt8.toNat = f.length + 1 := UInt8.toNat_ofNat_of_lt' (by unfold UInt8.size; omega)
  have hcode : (f.length + 1).toUInt8 ≠ 0xff ↔ f.length ≠ 254 := by
    rw [Ne, UInt8.toNat_inj.symm, hk]
    simp
  have hsent : sentBytes (dec.cbUserData.2 ++ (if dec.code ≠ 0xff then [some [0]] else []) ++
      f.map fun b => some [b]) = p := by
    rw [h.decoded, sentBytes_append, sentBytes_append, sentBytes_zero, sentBytes_singletons]
  refine ⟨_, hu, hsent, ⟨h.cb_eq, rfl, rfl, ?_, ?_⟩⟩
  · simp only [delimsOf_append, h.no_delims, delimsOf_zero, delimsOf_singletons]
  · simp only [hsent, hcode, List.append_nil]
    by_cases h254 : f.length = 254 <;> simp [h254]

-- After the last group, the decoder takes the frame delimiter when the flags ask for one.
theorem Between.close {p : List UInt8} {dec : Decoder (υ × Log)} (h : Between cb' flags p [] dec) :
    ∃ d, runStream decoderByte dec (if hasTrailing flags then [customDelimiter flags] else []) = (none, d) ∧
      d.codeIndex = 0 ∧ sentBytes d.cbUserData.2 = sentBytes dec.cbUserData.2 ∧
      delimsOf d.cbUserData.2 = if hasTrailing flags then 1 else 0 := by
  by_cases ht : hasTrailing flags = true
  · obtain ⟨u, hu⟩ := decoderByte_delimiter cb' hcb' dec h.cb_eq (by rw [h.flags_eq]; exact ht) h.index_zero
    rw [h.flags_eq] at hu
    refine ⟨{ dec with code := 0xff, codeIndex := 0, cbUserData := (u, dec.cbUserData.2 ++ [none]) },
      ?_, rfl, by simp, ?_⟩
    · rw [if_pos ht, runStream_cons_of_ok hu, runStream_nil, h.flags_eq]
    · rw [delimsOf_append, h.no_delims, if_pos ht]
      rfl
  · refine ⟨dec, ?_, h.index_zero, rfl, ?_⟩
    · rw [if_neg ht, runStream_nil]
    · rw [if_neg ht]
      exact h.no_delims

-- A decoder fed all the encoder sends, the close included, ends between frames
-- having passed on p, with one (NULL, 0) call for the trailing delimiter.
theorem EncInv.decodes_close {p : List UInt8} {e : Encoder (τ × Log)} (h : EncInv cb cb' u' flags p e) :
    ∃ d, runStream decoderByte (decStart cb' u' flags) (sentBytes e.cbUserData.2 ++
        groupBytes (customDelimiter flags) e.fragment ++ if hasTrailing flags then [customDelimiter flags] else []) =
        (none, d) ∧
      d.codeIndex = 0 ∧ sentBytes d.cbUserData.2 = p ∧ delimsOf d.cbUserData.2 = if hasTrailing flags then 1 else 0 := by
  obtain ⟨dec1, hrun1, hb⟩ := h.decodes
  obtain ⟨dec2, hg, hs2, hb2⟩ := hb.group cb' hcb' flags h.frag_ne h.frag_le
  obtain ⟨d, hd, hcode, hs, hdelims⟩ := hb2.close cb' hcb' flags
  have hrun2 := (runStream_append_of_ok hrun1 (groupBytes (customDelimiter flags) e.fragment)).trans hg
  refine ⟨d, ?_, hcode, hs.trans hs2, hdelims⟩
  rw [runStream_append_of_ok hrun2, hd]

include hcb

-- cobs_encoder_finish without the close: the open group goes out.
theorem EncInv.emit {p : List UInt8} {enc : Encoder (τ × Log)} (h : EncInv cb cb' u' flags p enc) :
    (cobsEncoderFinish enc false).1 = 0 ∧
      EncInv cb cb' u' flags (p ++ if enc.fragment.length = 254 then [] else [0]) (cobsEncoderFinish enc false).2 := by
  obtain ⟨u, hu⟩ := cobsEncoderFinish_logged cb hcb enc h.cb_eq false
  rw [hu]
  obtain ⟨dec, hrun, hb⟩ := h.decodes
  obtain ⟨dec', hg, -, hb'⟩ := hb.group cb' hcb' flags h.frag_ne h.frag_le
  have hnot := delimiter_not_mem_groupBytes (customDelimiter flags) enc.fragment h.frag_ne h.frag_le
  have hlen := h.len_le
  simp only [Bool.false_and, Bool.false_eq_true, if_false, h.flags_eq, true_and]
  refine ⟨h.cb_eq, rfl, by simp, by simp, ?_, ?_, ?_⟩
  · simpa using ⟨h.sent_ne, hnot⟩
  · simp only [sentBytes_append, sentBytes_cons_some, sentBytes_nil, List.append_nil, List.length_append,
      length_groupBytes, List.length_nil]
    split <;> simp <;> omega
  · refine ⟨dec', ?_, hb'⟩
    simp only [sentBytes_append, sentBytes_cons_some, sentBytes_nil, List.append_nil]
    rw [runStream_append_of_ok hrun, hg]

-- One byte of cobs_encoder_write: it never fails, and the invariant holds of the input with the byte.
theorem EncInv.step {p : List UInt8} {enc : Encoder (τ × Log)} (h : EncInv cb cb' u' flags p enc) (x : UInt8) :
    (encoderByte enc x).1 = none ∧ EncInv cb cb' u' flags (p ++ [x]) (encoderByte enc x).2 := by
  -- a full group goes out first and leaves the encoder with an empty one
  have hopen : ∃ e, EncInv cb cb' u' flags p e ∧ e.fragment.length ≠ 254 ∧ encoderByte enc x = encoderByte e x := by
    by_cases hfull : enc.fragment.length = 254
    · obtain ⟨-, he⟩ := h.emit cb hcb cb' hcb' u' flags
      rw [if_pos hfull, List.append_nil] at he
      refine ⟨_, he, ?_, encoderByte_of_full cb hcb enc h.cb_eq hfull x⟩
      rw [cobsEncoderFinish_fragment cb hcb enc h.cb_eq]
      simp
    · exact ⟨enc, h, hfull, rfl⟩
  obtain ⟨e, he, hn, heq⟩ := hopen
  rw [heq]
  by_cases hx : x = 0
  · subst hx
    rw [encoderByte_zero cb hcb e he.cb_eq hn]
    obtain ⟨-, he'⟩ := he.emit cb hcb cb' hcb' u' flags
    rw [if_neg hn] at he'
    exact ⟨rfl, he'⟩
  · rw [encoderByte_nonzero e hn hx]
    exact ⟨rfl, he.push cb cb' u' flags hn hx⟩

-- A cobs_encoder_write call returns the length of what it was given.
theorem EncInv.write {p : List UInt8} {enc : Encoder (τ × Log)} (h : EncInv cb cb' u' flags p enc) (q : List UInt8) :
    (cobsEncoderWrite enc q).1 = q.length ∧ EncInv cb cb' u' flags (p ++ q) (cobsEncoderWrite enc q).2 := by
  obtain ⟨hok, hinv⟩ := runStream_invariant (EncInv cb cb' u' flags)
    (fun p e x he => he.step cb hcb cb' hcb' u' flags x) q p enc h
  rcases hrun : runStream encoderByte enc q with ⟨_ | e, enc'⟩
  · rw [hrun] at hinv
    simp only [cobsEncoderWrite, hrun, true_and]
    exact hinv
  · rw [hrun] at hok
    cases hok

theorem EncInv.parts {p : List UInt8} {enc : Encoder (τ × Log)} (h : EncInv cb cb' u' flags p enc)
    (parts : List (List UInt8)) :
    ∃ e, EncInv cb cb' u' flags (p ++ parts.flatten) e ∧ (∀ r ∈ (encodeParts enc parts).1, 0 ≤ r) ∧
      encodeParts enc parts = ((encodeParts enc parts).1, (cobsEncoderClose e).2) := by
  induction parts generalizing p enc with
  | nil =>
    obtain ⟨u, hu⟩ := cobsEncoderFinish_logged cb hcb enc h.cb_eq true
    refine ⟨enc, by simpa using h, ?_, rfl⟩
    simp [encodeParts, cobsEncoderClose, hu]
  | cons q qs ih =>
    obtain ⟨hq, hw⟩ := h.write cb hcb cb' hcb' u' flags q
    obtain ⟨e, he, hr, heq⟩ := ih hw
    refine ⟨e, by simpa using he, ?_, ?_⟩
    · simp only [encodeParts, List.mem_cons, forall_eq_or_imp, hq]
      exact ⟨by omega, hr⟩
    · simp only [encodeParts]
      rw [heq]

-- cobs_encoder_close: the open group goes out, then the delimiter if the flags ask for one.
omit hcb' in
theorem EncInv.close_sent {p : List UInt8} {e : Encoder (τ × Log)} (h : EncInv cb cb' u' flags p e) :
    sentBytes (cobsEncoderClose e).2.cbUserData.2 = sentBytes e.cbUserData.2 ++
      groupBytes (customDelimiter flags) e.fragment ++ if hasTrailing flags then [customDelimiter flags] else [] := by
  obtain ⟨v, hv⟩ := cobsEncoderFinish_logged cb hcb e h.cb_eq true
  rw [cobsEncoderClose, hv]
  simp only [h.flags_eq, Bool.true_and]
  split <;> simp

theorem cobs_stream_round_trip (u : τ) (parts : List (List UInt8)) (enc : Encoder (τ × Log))
    (henc : cobsEncoderInit (some (logged cb)) (u, []) flags = .ok enc) :
    let run := encodeParts enc parts
    let E := sentBytes run.2.cbUserData.2
    (∀ r ∈ run.1, 0 ≤ r) ∧
      (if hasTrailing flags then ∃ E', E = E' ++ [customDelimiter flags] ∧ customDelimiter flags ∉ E'
        else customDelimiter flags ∉ E) ∧
      E.length ≤ cobsMaxEncodedLen parts.flatten.length flags ∧
      ∀ dparts : List (List UInt8), dparts.flatten = E → ∀ dec : Decoder (υ × Log),
        cobsDecoderInit (some (logged cb')) (u', []) flags = .ok dec →
        let drun := decodeParts dec dparts
        (∀ r ∈ drun.1, 0 ≤ r) ∧ sentBytes drun.2.cbUserData.2 = parts.flatten ∧
          delimsOf drun.2.cbUserData.2 = if hasTrailing flags then 1 else 0 := by
  simp only [cobsEncoderInit, Except.ok.injEq] at henc
  subst henc
  obtain ⟨e, he, hr, heq⟩ := (encInv_start cb cb' u' flags u).parts cb hcb cb' hcb' u' flags parts
  simp only [List.nil_append] at he
  rw [heq]
  dsimp only
  rw [he.close_sent cb hcb cb' u' flags]
  have hnot := delimiter_not_mem_groupBytes (customDelimiter flags) e.fragment he.frag_ne he.frag_le
  refine ⟨hr, ?_, he.close_length cb cb' u' flags, ?_⟩
  · split
    · exact ⟨_, rfl, by simp [he.sent_ne, hnot]⟩
    · simp [he.sent_ne, hnot]
  · intro dparts hd dec hdec
    simp only [cobsDecoderInit, Except.ok.injEq] at hdec
    subst hdec
    obtain ⟨d, hrun, hcode, hlog, hdelims⟩ := he.decodes_close cb cb' hcb' u' flags
    have hstart : Decoder.reset ⟨logged cb', (u', []), 0, 0, flags⟩ = decStart cb' u' flags := rfl
    rw [← hd] at hrun
    rw [hstart, decodeParts_of_ok dparts _ d hrun]
    have hclose : (cobsDecoderClose d).1 = 0 := by simp [cobsDecoderClose, Decoder.needsMoreData, hcode]
    refine ⟨?_, hlog, hdelims⟩
    simp only [hclose, List.mem_append, List.mem_map, List.mem_singleton]
    rintro r (⟨q, -, rfl⟩ | rfl) <;> omega

end RoundTrip

-- "\x01\x00" and "\x02" written in two calls, with a trailing delimiter 0x7e.
theorem cobs_stream_round_trip_two_writes :
    let cb : StreamCb Unit := fun _ _ => (0, ())
    let enc : Encoder (Unit × Log) := ⟨logged cb, ((), []), [], 0x17e⟩
    let run := encodeParts enc [[1, 0], [2]]
    let E := sentBytes run.2.cbUserData.2
    NeverFails cb ∧ cobsEncoderInit (some (logged cb)) ((), []) 0x17e = .ok enc ∧
      (∀ r ∈ run.1, 0 ≤ r) ∧
      (if hasTrailing 0x17e then ∃ E', E = E' ++ [customDelimiter 0x17e] ∧ customDelimiter 0x17e ∉ E'
        else customDelimiter 0x17e ∉ E) ∧
      E.length ≤ cobsMaxEncodedLen [[(1 : UInt8), 0], [2]].flatten.length 0x17e ∧
      ∀ dparts : List (List UInt8), dparts.flatten = E → ∀ dec : Decoder (Unit × Log),
        cobsDecoderInit (some (logged cb)) ((), []) 0x17e = .ok dec →
        let drun := decodeParts dec dparts
        (∀ r ∈ drun.1, 0 ≤ r) ∧ sentBytes drun.2.cbUserData.2 = [[(1 : UInt8), 0], [2]].flatten ∧
          delimsOf drun.2.cbUserData.2 = if hasTrailing 0x17e then 1 else 0 := by
  intro cb enc run E
  have hcb : NeverFails cb := fun _ _ => Int.le_refl 0
  exact ⟨hcb, rfl, cobs_stream_round_trip cb hcb cb hcb () 0x17e () [[1, 0], [2]] enc rfl⟩

example : sentBytes (encodeParts (⟨logged fun _ _ => (0, ()), ((), []), [], 0x100⟩ : Encoder (Unit × Log))
    [[1, 0], [2]]).2.cbUserData.2 = [2, 1, 2, 2, 0] := by
  decide

end Zephyr.Cobs
