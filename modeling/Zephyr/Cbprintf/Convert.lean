import Zephyr.Cbprintf.Package

namespace Zephyr.Cbprintf

-- CBPRINTF_PACKAGE_CONVERT_RO_STR, _RW_STR, _KEEP_RO_STR and _PTR_CHECK.
def convertRoStr : Nat := 1

def convertRwStr : Nat := 2

def convertKeepRoStr : Nat := 4

def convertPtrCheck : Nat := 8

def hasFlag (flags f : Nat) : Bool := flags &&& f ≠ 0

namespace Buf

variable (b : Buf)

-- The fields of the input package's struct cbprintf_package_desc.
def descLen : Nat := (b.bytes 0).toNat

def strCnt : Nat := (b.bytes 1).toNat

def roStrCnt : Nat := (b.bytes 2).toNat

def rwStrCnt : Nat := (b.bytes 3).toNat

-- The pointer in the package's word `p`, as buf32[p] reads it.
def ptrAt (c : Cfg) (p : Nat) : Nat := leValue (b.load (p * 4) c.ptrSize)

-- strlen over the package, looking at no more than `n` bytes.
def strlen (off : Nat) : Nat → Nat
  | 0 => 0
  | n + 1 => if b.bytes off = 0 then 0 else strlen (off + 1) n + 1

end Buf

section Convert

variable (c : Cfg) (flags : Nat) (checkPtr : Bool) {σ : Type}

-- get_package_len: past the arguments and the read-only positions, then past
-- each appended string, its position byte, its bytes and the NUL.
def skipStrings (b : Buf) (off : Nat) : Nat → Nat
  | 0 => off
  | n + 1 => skipStrings b (off + 1 + b.strlen (off + 1) (2 ^ (8 * c.ptrSize)) + 1) n

def getPackageLen (b : Buf) : Nat := skipStrings c b (b.descLen * c.intSize + b.roStrCnt) b.strCnt

-- The string append_string sees at `addr`: "(null)" stands in for NULL.
def strAt (addr : Nat) : List UInt8 := if addr = 0 then bytesOf "(null)" else c.str addr

def isFmtSpec (ch : UInt8) : Bool := 64 ≤ ch && ch ≤ 122

-- is_ptr(fmt, n) over the rest of fmt, with mod and cnt.
def isPtr (n : Nat) : List UInt8 → Bool → Nat → Bool
  | [], _, _ => false
  | ch :: rest, mod, cnt =>
    let toggle (mod : Bool) : Bool := if ch = byte '%' then !mod else mod
    if mod then
      if cnt = n then
        if ch = byte 'p' then true
        else if isFmtSpec ch then false
        else isPtr n rest (toggle true) cnt
      else if isFmtSpec ch then isPtr n rest (toggle false) (cnt + 1)
      else isPtr n rest (toggle true) cnt
    else isPtr n rest (toggle false) cnt

def roCpy (b : Buf) : Bool := b.roStrCnt ≠ 0 && hasFlag flags convertRoStr

def rwCpy (b : Buf) : Bool := b.rwStrCnt > 0 && hasFlag flags convertRwStr

-- The entry of a string that is an argument of %p, with CONFIG_CBPRINTF_CONVERT_CHECK_PTR
-- and CBPRINTF_PACKAGE_CONVERT_PTR_CHECK, is skipped.
def ptrDropped (b : Buf) (argIdx : UInt8) : Bool :=
  checkPtr && hasFlag flags convertPtrCheck && isPtr argIdx.toNat (c.str (leValue (b.load c.ptrSize c.ptrSize))) false 0

-- The read-write entries after the read-only positions: argument index, then position.
def rwEntries (b : Buf) (off : Nat) : Nat → List (UInt8 × UInt8)
  | 0 => []
  | n + 1 => (b.bytes off, b.bytes (off + 1)) :: rwEntries b (off + 2) n

-- The length-only call: out_len and the strl array with strl_cnt.
structure Lengths where
  outLen : Int
  strlCnt : Nat
  strl : List Nat

-- strl[strl_cnt++] = (uint16_t)len while strl_cnt < strl_len.
def Lengths.record (l : Lengths) (len : Nat) : Lengths :=
  if l.strlCnt < l.strl.length then
    { l with strlCnt := l.strlCnt + 1, strl := l.strl.set l.strlCnt (len % 65536) }
  else l

def lenRoStrings (b : Buf) : List UInt8 → Lengths → Lengths
  | [], l => l
  | pos :: rest, l =>
    let len := 1 + (strAt c (b.ptrAt c pos.toNat)).length
    lenRoStrings b rest { l.record len with outLen := l.outLen + len }

-- calculate_string_length: the argument index is dropped, the string appended.
def countString (str : Nat) (l : Lengths) : Lengths :=
  let len := 1 + (strAt c str).length
  { l.record len with outLen := l.outLen + len - 1 }

def lenRwStrings (b : Buf) (dropRoStrPos : Bool) : List (UInt8 × UInt8) → Lengths → Lengths
  | [], l => l
  | (argIdx, argPos) :: rest, l =>
    let str := b.ptrAt c argPos.toNat
    if ptrDropped c flags checkPtr b argIdx then lenRwStrings b dropRoStrPos rest { l with outLen := l.outLen - 2 }
    else if c.inRodata str then
      if hasFlag flags convertRoStr then lenRwStrings b dropRoStrPos rest (countString c str l)
      else lenRwStrings b dropRoStrPos rest { l with outLen := l.outLen - if dropRoStrPos then 2 else 1 }
    else if hasFlag flags convertRwStr then lenRwStrings b dropRoStrPos rest (countString c str l)
    else lenRwStrings b dropRoStrPos rest l

def convertLength (b : Buf) (inLen : Nat) (strl : List Nat) : Lengths :=
  let argsSize := b.descLen * c.intSize
  let l : Lengths := ⟨inLen, 0, strl⟩
  let l := if roCpy flags b then lenRoStrings c b (b.load argsSize b.roStrCnt) l else l
  lenRwStrings c flags checkPtr b (!hasFlag flags (convertKeepRoStr ||| convertRoStr))
    (rwEntries b (argsSize + b.roStrCnt) b.rwStrCnt) l

-- cpy_str_pos and keep_str_pos, each of 16 bytes, with their counts.
structure Sel where
  cpy : List UInt8
  keep : List UInt8

def Sel.copy (s : Sel) (pos : UInt8) : Sel := if s.cpy.length < 16 then { s with cpy := s.cpy ++ [pos] } else s

-- One bound check for both bytes of a read-write entry.
def Sel.keepPos (s : Sel) (ps : List UInt8) : Sel := if s.keep.length < 16 then { s with keep := s.keep ++ ps } else s

def selectRwStrings (b : Buf) : List (UInt8 × UInt8) → Sel → Sel
  | [], s => s
  | (argIdx, argPos) :: rest, s =>
    let str := b.ptrAt c argPos.toNat
    if ptrDropped c flags checkPtr b argIdx then selectRwStrings b rest s
    else if c.inRodata str then
      if hasFlag flags convertRoStr then selectRwStrings b rest (s.copy argPos)
      else if hasFlag flags convertKeepRoStr then selectRwStrings b rest (s.keepPos [argPos])
      else selectRwStrings b rest s
    else if hasFlag flags convertRwStr then selectRwStrings b rest (s.copy argPos)
    else selectRwStrings b rest (s.keepPos [argIdx, argPos])

-- A call cb(buf, len, ctx): the bytes from buf on, and len.
structure Chunk where
  data : Nat → UInt8
  len : Nat

-- What the copying call changes: the callback's context, and the input package
-- whose descriptor it overwrites while the header goes out.
structure Conv (σ : Type) where
  ctx : σ
  pkg : Buf

abbrev ConvM (σ : Type) := ExceptT Int (StateM (Conv σ))

def callCb (cb : σ → Chunk → Int × σ) (ch : Chunk) : ConvM σ Int := do
  let s ← get
  let (rv, ctx) := cb s.ctx ch
  set { s with ctx := ctx }
  if rv < 0 then throw rv
  return rv

-- append_string with a callback: strl bytes, or the string and its NUL when strl is 0.
def appendString (cb : σ → Chunk → Int × σ) (str strl : Nat) : ConvM σ Int :=
  let s := strAt c str
  callCb cb ⟨fun i => (s ++ [0]).getD i 0, if strl > 0 then strl else s.length + 1⟩

def appendStrings (cb : σ → Chunk → Int × σ) (strl : List Nat) : Nat → List UInt8 → ConvM σ Int
  | _, [] => return 0
  | i, loc :: rest => do
    let n₁ ← callCb cb ⟨fun _ => loc, 1⟩
    let n₂ ← appendString c cb ((← get).pkg.ptrAt c loc.toNat) (strl.getD i 0)
    let n₃ ← appendStrings cb strl (i + 1) rest
    return n₁ + n₂ + n₃

-- ros_nbr, cut to the size of the local array the read-only positions are copied
-- into, and the selection they start.
def roSelect (b : Buf) : Nat × Sel :=
  let ros := b.load (b.descLen * c.intSize) b.roStrCnt
  if roCpy flags b then (min b.roStrCnt 16, ⟨ros.take 16, []⟩)
  else if b.roStrCnt ≠ 0 && hasFlag flags convertKeepRoStr then (min b.roStrCnt 16, ⟨[], ros.take 16⟩)
  else (b.roStrCnt, ⟨[], []⟩)

def convertCopy (cb : σ → Chunk → Int × σ) (b : Buf) (inLen : Nat) (strl : List Nat) : ConvM σ Int := do
  let argsSize := b.descLen * c.intSize
  let rosNbr := (roSelect c flags b).1
  let sel := selectRwStrings c flags checkPtr b (rwEntries b (argsSize + b.roStrCnt) b.rwStrCnt) (roSelect c flags b).2
  let outDesc : List UInt8 := [b.descLen.toUInt8, (b.strCnt + sel.cpy.length).toUInt8,
    (if hasFlag flags convertRoStr then 0 else if hasFlag flags convertKeepRoStr then sel.keep.length else 0).toUInt8,
    (if hasFlag flags convertRwStr then 0 else sel.keep.length / 2).toUInt8]
  modify fun s => { s with pkg := s.pkg.store 0 outDesc }
  let n₁ ← callCb cb ⟨(← get).pkg.bytes, argsSize⟩
  modify fun s => { s with pkg := s.pkg.store 0 (b.load 0 4) }
  let n₂ ← callCb cb ⟨fun i => sel.keep.getD i 0, sel.keep.length⟩
  -- a size_t difference
  let strsLen := (((inLen : Int) - (argsSize + rosNbr + 2 * b.rwStrCnt)) % 2 ^ (8 * c.ptrSize)).toNat
  let n₃ ← callCb cb ⟨fun i => b.bytes (argsSize + b.roStrCnt + 2 * b.rwStrCnt + i), strsLen⟩
  let n₄ ← appendStrings c cb strl 0 sel.cpy
  modify fun s => { s with ctx := (cb s.ctx ⟨fun _ => 0, 0⟩).2 }
  return n₁ + n₂ + n₃ + n₄

-- cbprintf_package_convert(in_packaged, in_len, cb, ctx, flags, strl, strl_len) for
-- the package `b`, cb none for NULL, and strl holding its strl_len entries: the
-- result, what the call changed, and strl after it.
def cbprintfPackageConvert (b : Buf) (inLen : Nat) (cb : Option (σ → Chunk → Int × σ)) (ctx : σ)
    (strl : List Nat) : Int × Conv σ × List Nat :=
  let inLen := if inLen ≠ 0 then inLen else getPackageLen c b
  -- the plain copy: what the callback returns is not looked at
  if !rwCpy flags b && !roCpy flags b then
    (inLen, ⟨(cb.map fun cb => (cb ctx ⟨b.bytes, inLen⟩).2).getD ctx, b⟩, strl)
  else match cb with
    | none =>
      let l := convertLength c flags checkPtr b inLen strl
      (l.outLen, ⟨ctx, b⟩, l.strl)
    | some cb =>
      match (convertCopy c flags checkPtr cb b inLen strl).run.run ⟨ctx, b⟩ with
      | (.ok v, s) => (v, s, strl)
      | (.error e, s) => (e, s, strl)

-- struct z_cbprintf_buf_desc.
structure BufDesc where
  buf : Nat → UInt8
  size : Nat
  off : Nat

def zCbprintfCpy (d : BufDesc) (ch : Chunk) : Int × BufDesc :=
  if ch.len = 0 then (0, d)
  else if d.size - d.off < ch.len then (-eNoSpc, d)
  else
    (ch.len, { d with
      buf := fun i => if d.off ≤ i ∧ i < d.off + ch.len then ch.data (i - d.off) else d.buf i
      off := d.off + ch.len })

-- cbprintf_package_copy(in_packaged, in_len, packaged, len, flags, strl, strl_len)
-- with `packaged` the output buffer's bytes, none for NULL.
def cbprintfPackageCopy (b : Buf) (inLen : Nat) (packaged : Option (Nat → UInt8)) (len : Nat)
    (strl : List Nat) : Int × Conv BufDesc × List Nat :=
  cbprintfPackageConvert c flags checkPtr b inLen (packaged.map fun _ => zCbprintfCpy)
    ⟨packaged.getD fun _ => 0, len, 0⟩ strl

end Convert

section ConvM

variable {σ α β : Type}

theorem ConvM.run_bind (x : ConvM σ α) (f : α → ConvM σ β) (s : Conv σ) :
    (x >>= f).run.run s = match x.run.run s with
      | (.ok a, s') => (f a).run.run s'
      | (.error e, s') => (.error e, s') := by
  simp only [ExceptT.run_bind, StateT.run_bind]
  rcases x.run.run s with ⟨_ | _, _⟩ <;> rfl

@[simp] theorem ConvM.run_modify (f : Conv σ → Conv σ) (s : Conv σ) :
    (modify f : ConvM σ Unit).run.run s = (.ok (), f s) := rfl

@[simp] theorem ConvM.run_get (s : Conv σ) : (get : ConvM σ (Conv σ)).run.run s = (.ok s, s) := rfl

@[simp] theorem ConvM.run_pure (a : α) (s : Conv σ) : (pure a : ConvM σ α).run.run s = (.ok a, s) := rfl

end ConvM

theorem Buf.store_bytes (b : Buf) (off : Nat) (xs : List UInt8) (i : Nat) :
    (b.store off xs).bytes i = if off ≤ i ∧ i < off + xs.length then xs.getD (i - off) 0 else b.bytes i := by
  induction xs generalizing b off with
  | nil =>
    simp only [Buf.store, List.length_nil, Nat.add_zero]
    rw [if_neg (by omega)]
  | cons x xs ih =>
    simp only [Buf.store, ih, List.length_cons, Function.update]
    by_cases h : i = off
    · subst h
      rw [if_neg (by omega), if_pos (by omega)]
      simp
    · by_cases h' : off + 1 ≤ i ∧ i < off + 1 + xs.length
      · rw [if_pos h', if_pos (by omega), show i - off = i - (off + 1) + 1 by omega, List.getD_cons_succ]
      · rw [if_neg h', if_neg (by omega)]
        simp [h]

-- Putting the first four bytes back undoes the descriptor written over them.
theorem Buf.store_restore_bytes (b : Buf) (d : List UInt8) (hd : d.length = 4) :
    ((b.store 0 d).store 0 (b.load 0 4)).bytes = b.bytes := by
  funext i
  rw [Buf.store_bytes, Buf.store_bytes]
  by_cases h : i < 4
  · simp [h, Buf.load, List.getD_eq_getElem?_getD]
  · simp [h, hd, Buf.load]


section Count

variable (c : Cfg) (flags : Nat) (checkPtr : Bool)

-- A callback that takes every chunk, its context the number of bytes so far.
def countBytes (n : Nat) (ch : Chunk) : Int × Nat := (ch.len, n + ch.len)

theorem callCb_countBytes (ch : Chunk) (s : Conv Nat) :
    (callCb countBytes ch).run.run s = (.ok (ch.len : Int), { s with ctx := s.ctx + ch.len }) := by
  simp only [callCb, countBytes]
  rfl

-- What a string copied in adds: its position byte, its bytes and the NUL.
def strCost (b : Buf) (loc : UInt8) : Nat := 2 + (strAt c (b.ptrAt c loc.toNat)).length

def Sel.size (b : Buf) (s : Sel) : Nat := s.keep.length + (s.cpy.map (strCost c b)).sum

theorem appendStrings_countBytes (p : Buf) (locs : List UInt8) (i n : Nat) :
    (appendStrings c countBytes [] i locs).run.run ⟨n, p⟩ =
      (.ok ((locs.map (strCost c p)).sum : Nat), ⟨n + (locs.map (strCost c p)).sum, p⟩) := by
  induction locs generalizing i n with
  | nil => rfl
  | cons loc rest ih =>
    simp only [appendStrings, appendString, ConvM.run_bind, callCb_countBytes, ConvM.run_get, ih,
      ConvM.run_pure, List.getD_nil, gt_iff_lt, Nat.lt_irrefl, if_false, List.map_cons, List.sum_cons]
    simp only [strCost]
    congr 2 <;> push_cast <;> omega

@[simp] theorem Sel.keep_copy (s : Sel) (pos : UInt8) : (s.copy pos).keep = s.keep := by
  unfold Sel.copy
  split <;> rfl

theorem Sel.length_cpy_copy (s : Sel) (pos : UInt8) : (s.copy pos).cpy.length ≤ s.cpy.length + 1 := by
  unfold Sel.copy
  split <;> simp

@[simp] theorem Sel.cpy_keepPos (s : Sel) (ps : List UInt8) : (s.keepPos ps).cpy = s.cpy := by
  unfold Sel.keepPos
  split <;> rfl

theorem Sel.length_keep_keepPos (s : Sel) (ps : List UInt8) :
    (s.keepPos ps).keep.length ≤ s.keep.length + ps.length := by
  unfold Sel.keepPos
  split <;> simp

theorem Sel.size_copy (b : Buf) (s : Sel) (pos : UInt8) (h : s.cpy.length < 16) :
    (s.copy pos).size c b = s.size c b + strCost c b pos := by
  simp [Sel.copy, Sel.size, h]
  omega

theorem Sel.size_keepPos (b : Buf) (s : Sel) (ps : List UInt8) (h : s.keep.length < 16) :
    (s.keepPos ps).size c b = s.size c b + ps.length := by
  simp [Sel.keepPos, Sel.size, h]
  omega

@[simp] theorem Lengths.record_outLen (l : Lengths) (len : Nat) : (l.record len).outLen = l.outLen := by
  unfold Lengths.record
  split <;> rfl

theorem countString_outLen (str : Nat) (l : Lengths) :
    (countString c str l).outLen = l.outLen + (strAt c str).length := by
  simp only [countString]
  push_cast
  omega

theorem lenRoStrings_outLen (b : Buf) (ps : List UInt8) (l : Lengths) :
    (lenRoStrings c b ps l).outLen = l.outLen + (ps.map fun p => 1 + (strAt c (b.ptrAt c p.toNat)).length).sum := by
  induction ps generalizing l with
  | nil => simp [lenRoStrings]
  | cons p ps ih =>
    simp only [lenRoStrings, ih, List.map_cons, List.sum_cons]
    push_cast
    omega

@[simp] theorem rwEntries_length (b : Buf) (off n : Nat) : (rwEntries b off n).length = n := by
  induction n generalizing off with
  | zero => rfl
  | succ n ih => simp [rwEntries, ih]

theorem hasFlag_or (a f : Nat) : hasFlag flags (a ||| f) = (hasFlag flags a || hasFlag flags f) := by
  simp [hasFlag, Nat.and_or_distrib_left, Nat.or_eq_zero_iff]

-- The two walks over the read-write entries agree entry by entry: each entry's
-- two bytes leave the string area, and what the length-only walk adds for it is
-- what the copying walk keeps or copies in for it.
theorem lenRwStrings_outLen (b : Buf) (es : List (UInt8 × UInt8)) (l : Lengths) (s : Sel)
    (hk : s.keep.length + 2 * es.length ≤ 16) (hc : s.cpy.length + es.length ≤ 16) :
    (lenRwStrings c flags checkPtr b (!hasFlag flags (convertKeepRoStr ||| convertRoStr)) es l).outLen +
        s.size c b + 2 * es.length =
      l.outLen + (selectRwStrings c flags checkPtr b es s).size c b := by
  induction es generalizing l s with
  | nil => simp [lenRwStrings, selectRwStrings]
  | cons e rest ih =>
    obtain ⟨argIdx, argPos⟩ := e
    simp only [List.length_cons] at hk hc
    have hcopy := Sel.size_copy c b s argPos (by omega)
    have hcopyk : (s.copy argPos).keep.length + 2 * rest.length ≤ 16 := by
      rw [Sel.keep_copy]; omega
    have hcopyc : (s.copy argPos).cpy.length + rest.length ≤ 16 := by
      have := Sel.length_cpy_copy s argPos; omega
    -- an entry copied in, and an entry dropped whole, in either walk
    have hcopied : ∀ str, str = b.ptrAt c argPos.toNat →
        (lenRwStrings c flags checkPtr b (!hasFlag flags (convertKeepRoStr ||| convertRoStr)) rest
            (countString c str l)).outLen + s.size c b + 2 * (rest.length + 1) =
          l.outLen + (selectRwStrings c flags checkPtr b rest (s.copy argPos)).size c b := by
      rintro str rfl
      have := ih (countString c (b.ptrAt c argPos.toNat) l) (s.copy argPos) hcopyk hcopyc
      rw [countString_outLen, hcopy] at this
      simp only [strCost] at this
      push_cast at this ⊢
      omega
    have hdropped :
        (lenRwStrings c flags checkPtr b (!hasFlag flags (convertKeepRoStr ||| convertRoStr)) rest
            { l with outLen := l.outLen - 2 }).outLen + s.size c b + 2 * (rest.length + 1) =
          l.outLen + (selectRwStrings c flags checkPtr b rest s).size c b := by
      have := ih { l with outLen := l.outLen - 2 } s (by omega) (by omega)
      push_cast at this ⊢
      omega
    simp only [lenRwStrings, selectRwStrings, List.length_cons]
    by_cases hp : ptrDropped c flags checkPtr b argIdx = true
    · simp only [hp, if_true]
      exact hdropped
    simp only [hp, Bool.false_eq_true, if_false]
    by_cases hro : c.inRodata (b.ptrAt c argPos.toNat) = true
    · simp only [hro, if_true]
      by_cases hrs : hasFlag flags convertRoStr = true
      · simp only [hrs, if_true]
        exact hcopied _ rfl
      simp only [hrs, Bool.false_eq_true, if_false]
      by_cases hks : hasFlag flags convertKeepRoStr = true
      · -- the position is kept and only the argument index goes
        have hdrop : (!hasFlag flags (convertKeepRoStr ||| convertRoStr)) = false := by simp [hasFlag_or, hks]
        have hk' := Sel.length_keep_keepPos s [argPos]
        have := ih { l with outLen := l.outLen - 1 } (s.keepPos [argPos]) (by simp at hk'; omega)
          (by rw [Sel.cpy_keepPos]; omega)
        rw [Sel.size_keepPos c b s [argPos] (by omega)] at this
        simp only [hks, hdrop, if_true, Bool.false_eq_true, if_false, List.length_singleton] at this ⊢
        push_cast at this ⊢
        omega
      · have hdrop : (!hasFlag flags (convertKeepRoStr ||| convertRoStr)) = true := by
          simp [hasFlag_or, hks, hrs]
        simp only [hdrop] at hdropped
        simp only [hks, hdrop, Bool.false_eq_true, if_true, if_false]
        exact hdropped
    · simp only [hro, Bool.false_eq_true, if_false]
      by_cases hrw : hasFlag flags convertRwStr = true
      · simp only [hrw, if_true]
        exact hcopied _ rfl
      · -- both bytes of the entry stay
        have hk' := Sel.length_keep_keepPos s [argIdx, argPos]
        have := ih l (s.keepPos [argIdx, argPos]) (by simp at hk'; omega) (by rw [Sel.cpy_keepPos]; omega)
        rw [Sel.size_keepPos c b s _ (by omega)] at this
        simp only [hrw, Bool.false_eq_true, if_false, List.length_cons, List.length_nil] at this ⊢
        push_cast at this ⊢
        omega

theorem strCost_congr {p b : Buf} (h : p.bytes = b.bytes) : strCost c p = strCost c b := by
  funext loc
  simp [strCost, Buf.ptrAt, Buf.load, h]

theorem sum_strCost (b : Buf) (ps : List UInt8) :
    (ps.map (strCost c b)).sum = (ps.map fun p => 1 + (strAt c (b.ptrAt c p.toNat)).length).sum + ps.length := by
  induction ps with
  | nil => rfl
  | cons p ps ih =>
    simp only [List.map_cons, List.sum_cons, List.length_cons, ih, strCost]
    omega

@[simp] theorem Buf.length_load (b : Buf) (off n : Nat) : (b.load off n).length = n := by
  simp [Buf.load]

theorem roSelect_length (b : Buf) :
    (roSelect c flags b).2.keep.length + (roSelect c flags b).2.cpy.length ≤ b.roStrCnt := by
  unfold roSelect
  split
  · simpa using Nat.min_le_right 16 b.roStrCnt
  · split
    · simpa using Nat.min_le_right 16 b.roStrCnt
    · simp

-- The copying call with the counting callback returns the number of bytes it
-- passed on: the header and arguments, the kept positions, the string area and
-- the strings copied in.
theorem convertCopy_countBytes (b : Buf) (inLen n T : Nat)
    (hT : T = b.descLen * c.intSize +
      (((inLen : Int) - (b.descLen * c.intSize + (roSelect c flags b).1 + 2 * b.rwStrCnt)) %
        2 ^ (8 * c.ptrSize)).toNat +
      (selectRwStrings c flags checkPtr b (rwEntries b (b.descLen * c.intSize + b.roStrCnt) b.rwStrCnt)
        (roSelect c flags b).2).size c b) :
    ((convertCopy c flags checkPtr countBytes b inLen []).run.run ⟨n, b⟩).1 = .ok (T : Int) ∧
      ((convertCopy c flags checkPtr countBytes b inLen []).run.run ⟨n, b⟩).2.ctx = n + T := by
  subst hT
  simp only [convertCopy, ConvM.run_bind, callCb_countBytes, ConvM.run_modify, ConvM.run_get,
    appendStrings_countBytes, ConvM.run_pure]
  rw [strCost_congr c (Buf.store_restore_bytes b _ rfl)]
  simp only [countBytes, Sel.size]
  refine ⟨congrArg Except.ok ?_, ?_⟩ <;> push_cast <;> omega

theorem roSelect_fst_le (b : Buf) : (roSelect c flags b).1 ≤ b.roStrCnt := by
  unfold roSelect
  split
  · exact Nat.min_le_left _ _
  · split
    · exact Nat.min_le_left _ _
    · exact Nat.le_refl _

-- What the length-only call adds for the read-only strings it appends.
def roAdded (b : Buf) : Nat :=
  if roCpy flags b then ((b.load (b.descLen * c.intSize) b.roStrCnt).map
    fun p => 1 + (strAt c (b.ptrAt c p.toNat)).length).sum else 0

theorem convertLength_outLen (b : Buf) (inLen : Nat) (strl : List Nat) (hcap : b.roStrCnt + 2 * b.rwStrCnt ≤ 16) :
    (convertLength c flags checkPtr b inLen strl).outLen + (roSelect c flags b).2.size c b + 2 * b.rwStrCnt =
      inLen + roAdded c flags b +
        (selectRwStrings c flags checkPtr b (rwEntries b (b.descLen * c.intSize + b.roStrCnt) b.rwStrCnt)
          (roSelect c flags b).2).size c b := by
  have hsel := roSelect_length c flags b
  have h := lenRwStrings_outLen c flags checkPtr b (rwEntries b (b.descLen * c.intSize + b.roStrCnt) b.rwStrCnt)
    (if roCpy flags b then lenRoStrings c b (b.load (b.descLen * c.intSize) b.roStrCnt) ⟨inLen, 0, strl⟩
      else ⟨inLen, 0, strl⟩) (roSelect c flags b).2 (by simp; omega) (by simp; omega)
  rw [rwEntries_length] at h
  by_cases hro : roCpy flags b = true
  · rw [if_pos hro, lenRoStrings_outLen] at h
    simp only [convertLength, roAdded, if_pos hro]
    generalize ((b.load (b.descLen * c.intSize) b.roStrCnt).map
      fun p => 1 + (strAt c (b.ptrAt c p.toNat)).length).sum = R at h ⊢
    push_cast at h ⊢
    omega
  · rw [if_neg hro] at h
    simp only [convertLength, roAdded, if_neg hro]
    push_cast at h ⊢
    omega

-- What the read-only positions add on the two routes: the copied strings in
-- both, and in the copying call ros_nbr bytes less of the string area, so the
-- routes differ by the positions neither copied nor kept.
theorem roSelect_gap (b : Buf) (hcap : b.roStrCnt ≤ 16) :
    roAdded c flags b + (roSelect c flags b).1 =
      (roSelect c flags b).2.size c b +
        if roCpy flags b || (b.roStrCnt ≠ 0 && hasFlag flags convertKeepRoStr) then 0 else b.roStrCnt := by
  have htake : (b.load (b.descLen * c.intSize) b.roStrCnt).take 16 = b.load (b.descLen * c.intSize) b.roStrCnt :=
    List.take_of_length_le (by simp; omega)
  unfold roSelect
  by_cases hro : roCpy flags b = true
  · simp only [roAdded, hro, if_true, Bool.true_or, htake, Sel.size, List.length_nil, sum_strCost, Buf.length_load]
    omega
  · by_cases hk : (decide (b.roStrCnt ≠ 0) && hasFlag flags convertKeepRoStr) = true
    · simp only [roAdded, hro, hk, if_true, if_false, Bool.false_eq_true, Bool.false_or, htake, Sel.size,
        List.map_nil, List.sum_nil, Buf.length_load]
      omega
    · simp only [roAdded, hro, hk, if_false, Bool.false_eq_true, Bool.false_or, Sel.size, List.length_nil,
        List.map_nil, List.sum_nil]
      omega

-- Past the plain copy, the positions neither copied nor kept are those of a
-- read-write copy with neither CBPRINTF_PACKAGE_CONVERT_RO_STR nor _KEEP_RO_STR.
theorem gap_eq_of_not_plain (b : Buf) (h : ¬(!rwCpy flags b && !roCpy flags b) = true) :
    (if (roCpy flags b || (decide (b.roStrCnt ≠ 0) && hasFlag flags convertKeepRoStr)) = true then 0 else b.roStrCnt) =
      if (rwCpy flags b && !hasFlag flags convertRoStr && !hasFlag flags convertKeepRoStr) = true then b.roStrCnt
      else 0 := by
  unfold roCpy at *
  cases hR : hasFlag flags convertRoStr <;> cases hK : hasFlag flags convertKeepRoStr <;>
    cases hW : rwCpy flags b <;> by_cases h0 : b.roStrCnt = 0 <;> simp_all

theorem cbprintf_package_convert_length_gap (b : Buf) (inLen : Nat) (strl : List Nat)
    (hin : 0 < inLen) (hlay : b.descLen * c.intSize + b.roStrCnt + 2 * b.rwStrCnt ≤ inLen)
    (hw : inLen < 2 ^ (8 * c.ptrSize)) (hcap : b.roStrCnt + 2 * b.rwStrCnt ≤ 16) :
    (cbprintfPackageConvert c flags checkPtr b inLen (some countBytes) 0 []).1 =
        (cbprintfPackageConvert c flags checkPtr b inLen (some countBytes) 0 []).2.1.ctx ∧
      (cbprintfPackageConvert c flags checkPtr b inLen none 0 strl).1 =
        (cbprintfPackageConvert c flags checkPtr b inLen (some countBytes) 0 []).1 +
          if rwCpy flags b && !hasFlag flags convertRoStr && !hasFlag flags convertKeepRoStr then b.roStrCnt else 0 := by
  have hres : (if inLen ≠ 0 then inLen else getPackageLen c b) = inLen := if_pos (by omega)
  simp only [cbprintfPackageConvert, hres]
  by_cases hsimple : (!rwCpy flags b && !roCpy flags b) = true
  · have hrw : rwCpy flags b = false := by simp_all
    have hro : roCpy flags b = false := by simp_all
    simp [hrw, hro, countBytes]
  simp only [hsimple, Bool.false_eq_true, if_false]
  obtain ⟨hr, hctx⟩ := convertCopy_countBytes c flags checkPtr b inLen 0 _ rfl
  generalize (convertCopy c flags checkPtr countBytes b inLen []).run.run ⟨0, b⟩ = r at hr hctx ⊢
  obtain ⟨_, s⟩ := r
  simp only at hr hctx
  subst hr
  refine ⟨by simp [hctx], ?_⟩
  have hlen := convertLength_outLen c flags checkPtr b inLen strl hcap
  have hgap := roSelect_gap c flags b (by omega)
  have hnbr := roSelect_fst_le c flags b
  have hstrs : (((inLen : Int) - (b.descLen * c.intSize + (roSelect c flags b).1 + 2 * b.rwStrCnt)) %
      2 ^ (8 * c.ptrSize)).toNat = inLen - (b.descLen * c.intSize + (roSelect c flags b).1 + 2 * b.rwStrCnt) := by
    have hw' : (inLen : Int) < 2 ^ (8 * c.ptrSize) := by exact_mod_cast hw
    rw [Int.emod_eq_of_lt (by omega) (by omega)]
    omega
  rw [hstrs]
  dsimp only
  rw [← gap_eq_of_not_plain flags b hsimple]
  generalize (if (roCpy flags b || (decide (b.roStrCnt ≠ 0) && hasFlag flags convertKeepRoStr)) = true then 0
    else b.roStrCnt) = g at hgap ⊢
  push_cast at hlen ⊢
  omega

end Count

theorem cbprintf_package_convert_length_exceeds_copy :
    let c : Cfg := ⟨arm32, fun a => decide (a < 0x10000),
      fun a => if a = 0x1000 then bytesOf "%s" else if a = 0x20001000 then bytesOf "ab" else [], some 0x20000000, 6⟩
    let pkg := (cbvprintfPackage c 15 0x1000 [0x20001000]).2
    (cbvprintfPackage c 15 0x1000 [0x20001000]).1 = 15 ∧
      (cbprintfPackageCopy c convertRwStr false pkg 15 none 0 []).1 = 17 ∧
      (cbprintfPackageCopy c convertRwStr false pkg 15 (some fun _ => 0) 17 []).1 = 16 ∧
      (cbprintfPackageCopy c convertRwStr false pkg 0 none 0 []).1 = 15 ∧
      (cbprintfPackageCopy c convertRwStr false pkg 0 (some fun _ => 0) 15 []).1 = -eNoSpc := by
  decide +kernel

end Zephyr.Cbprintf
