import Zephyr.Json.Parse

namespace Zephyr.Json

def eNoMem : Int := 12

-- The struct the encoder reads: the value at each field address, the string a
-- char * points to (the bytes before its NUL), and the bytes a token points to.
structure Source where
  cell : Nat → Option Cell
  str : Nat → List UInt8
  bytes : Nat → UInt8

namespace Source

variable (src : Source) (p : Nat)

def int : Int := match src.cell p with | some (.int v) => v | _ => 0

def bool : Bool := match src.cell p with | some (.bool b) => b | _ => false

def ptr : Nat := match src.cell p with | some (.ptr q) => q | _ => 0

def chars : List UInt8 := match src.cell p with | some (.chars s) => s | _ => []

def count : Nat := match src.cell p with | some (.count n) => n | _ => 0

def token : Nat × Nat := match src.cell p with | some (.token s l) => (s, l) | _ => (0, 0)

-- The string a char * field points to; none for NULL.
def string : Option (List UInt8) := if src.ptr p = 0 then none else some (src.str (src.ptr p))

end Source

def escapeAs (c : UInt8) : UInt8 :=
  if c = byte '"' then byte '"'
  else if c = byte '\\' then byte '\\'
  else if c = 8 then byte 'b'
  else if c = 12 then byte 'f'
  else if c = 10 then byte 'n'
  else if c = 13 then byte 'r'
  else if c = 9 then byte 't'
  else 0

-- The encoder writes through an append_bytes callback on some state.
section Encode

variable {σ : Type} (append : List UInt8 → σ → Int × σ)

-- json_escape_internal, up to the NUL of the string.
def escapeInternal : List UInt8 → σ → Int × σ
  | [], s => (0, s)
  | c :: str, s =>
    if c = 0 then (0, s)
    else
      let r := if escapeAs c ≠ 0 then append [byte '\\', escapeAs c] s else append [c] s
      if r.1 = 0 then escapeInternal str r.2 else r

def strEncode (str : Option (List UInt8)) (s : σ) : Int × σ :=
  let r := append (bytesOf "\"") s
  if r.1 < 0 then r
  else
    let e := match str with
      | some str => escapeInternal append str r.2
      | none => (0, r.2)
    if e.1 = 0 then append (bytesOf "\"") e.2 else e

-- snprintk of a number into a buffer of `bufSize` bytes, then its text appended.
def printEncode (text : List UInt8) (bufSize : Nat) (s : σ) : Int × σ :=
  if bufSize ≤ text.length then (-eNoMem, s) else append text s

def int32Encode (num : Int) (s : σ) : Int × σ := printEncode append (bytesOf (toString num)) 12 s

def uint32Encode (num : Int) (s : σ) : Int × σ := printEncode append (bytesOf (toString num)) 12 s

def int64Encode (num : Int) (s : σ) : Int × σ := printEncode append (bytesOf (toString num)) 21 s

def uint64Encode (num : Int) (s : σ) : Int × σ := printEncode append (bytesOf (toString num)) 21 s

-- int_encode and uint_encode read the field at its width and print it as
-- int32_t or uint32_t, or at 64 bits.
def intEncode (num : Int) (size : Nat) (s : σ) : Int × σ :=
  match size with
  | 1 => int32Encode append (num.bmod (2 ^ 8)) s
  | 2 => int32Encode append (num.bmod (2 ^ 16)) s
  | 4 => int32Encode append (num.bmod (2 ^ 32)) s
  | 8 => int64Encode append (num.bmod (2 ^ 64)) s
  | _ => (-eInval, s)

def uintEncode (num : Int) (size : Nat) (s : σ) : Int × σ :=
  match size with
  | 1 => uint32Encode append (num % 2 ^ 8) s
  | 2 => uint32Encode append (num % 2 ^ 16) s
  | 4 => uint32Encode append (num % 2 ^ 32) s
  | 8 => uint64Encode append (num % 2 ^ 64) s
  | _ => (-eInval, s)

def boolEncode (value : Bool) (s : σ) : Int × σ :=
  if value then append (bytesOf "true") s else append (bytesOf "false") s

def opaqueStringEncode (str : List UInt8) (s : σ) : Int × σ :=
  let r := append (bytesOf "\"") s
  if r.1 < 0 then r
  else
    let o := append str r.2
    if o.1 < 0 then o else append (bytesOf "\"") o.2

-- The fields that are not objects or arrays.
def encodeLeaf (src : Source) (type : TokKind) (size : Nat) (p : Nat) (s : σ) : Int × σ :=
  match type with
  | .false | .true => boolEncode append (src.bool p) s
  | .string => strEncode append (src.string p) s
  | .stringBuf => strEncode append (some (src.chars p)) s
  | .number => int32Encode append ((src.int p).bmod (2 ^ 32)) s
  | .int => intEncode append (src.int p) size s
  | .uint => uintEncode append (src.int p) size s
  | .int64 => int64Encode append ((src.int p).bmod (2 ^ 64)) s
  | .uint64 => uint64Encode append (src.int p % 2 ^ 64) s
  -- print_double without CONFIG_JSON_LIBRARY_FP_SUPPORT
  | .floatFp | .doubleFp => (-eInval, s)
  | .float => append ((List.range (src.token p).2).map fun i => src.bytes ((src.token p).1 + i)) s
  | .opaqueString => opaqueStringEncode append ((List.range (src.token p).2).map fun i => src.bytes ((src.token p).1 + i)) s
  | .encodedObj => append (src.str (src.ptr p)) s
  | .null => append (bytesOf "null") s
  | _ => (-eInval, s)

-- The loop of arr_encode over `n` elements from `field`, a comma between two.
def arrElems (encodeElem : Int → σ → Int × σ) (elemSize : Int) : Nat → Int → σ → Int × σ
  | 0, _, s => (0, s)
  | n + 1, field, s =>
    let r := encodeElem field s
    if r.1 < 0 then r
    else
      let c := if n ≠ 0 then append (bytesOf ",") r.2 else (0, r.2)
      if c.1 < 0 then c else arrElems encodeElem elemSize n (field + elemSize) c.2

theorem sizeOf_nested (e : Descr) :
    sizeOf (if e.type = .arrayStart then (e.elementDescr).getD e else e) ≤ sizeOf e := by
  split
  · cases e with
    | mk name shift type off body =>
      cases body with
      | array e n =>
        simp only [Descr.elementDescr, Option.getD_some, Descr.mk.sizeOf_spec, DescrBody.array.sizeOf_spec]
        omega
      | object sub => simp [Descr.elementDescr]
      | field size => simp [Descr.elementDescr]
  · exact Nat.le_refl _

-- Addresses are integers here: arr_encode hands encode the element's address
-- minus the element descriptor's offset, which encode adds back.
mutual

def encode (src : Source) : Descr → Int → σ → Int × σ
  | .mk _ _ .arrayStart off (.array e _), val, s => arrEncode src e (val + off) val s
  | .mk _ _ .objectStart off (.object sub), val, s => jsonObjEncode src sub (val + off) s
  | d, val, s => encodeLeaf append src d.type d.fieldSize (val + d.offset).toNat s
termination_by d => sizeOf d

def arrEncode (src : Source) (elemDescr : Descr) (field val : Int) (s : σ) : Int × σ :=
  -- the element descriptor's offset is that of the element count
  let nElem := src.count (val + elemDescr.offset).toNat
  let r := append (bytesOf "[") s
  if r.1 < 0 then r
  else
    let elemDescr' := if elemDescr.type = .arrayStart then (elemDescr.elementDescr).getD elemDescr else elemDescr
    let l := arrElems append (fun field s => encode src elemDescr' (field - elemDescr'.offset) s)
      (getElemSize elemDescr') nElem field r.2
    if l.1 < 0 then l else append (bytesOf "]") l.2
termination_by sizeOf elemDescr + 1
decreasing_by
  have := sizeOf_nested elemDescr
  simp only [dite_eq_ite]
  omega

def jsonObjEncode (src : Source) (descr : List Descr) (val : Int) (s : σ) : Int × σ :=
  let r := append (bytesOf "\x7b") s
  if r.1 < 0 then r
  else
    let f := objFields src descr val r.2
    if f.1 < 0 then f else append (bytesOf "\x7d") f.2
termination_by sizeOf descr + 1

-- The loop of json_obj_encode: name, colon and value of each field, a comma between two.
def objFields (src : Source) : List Descr → Int → σ → Int × σ
  | [], _, s => (0, s)
  | d :: ds, val, s =>
    let n := strEncode append (some d.fieldName) s
    if n.1 < 0 then n
    else
      let c := append (bytesOf ":") n.2
      if c.1 < 0 then c
      else
        let v := encode src d val c.2
        if v.1 < 0 then v
        else
          let m := if ds ≠ [] then append (bytesOf ",") v.2 else (0, v.2)
          if m.1 < 0 then m else objFields src ds val m.2
termination_by ds => sizeOf ds

end

end Encode

-- struct appender: what has been written (a NUL follows it) and the buffer size.
structure Appender where
  buffer : List UInt8
  size : Nat

def appendBytesToBuf (bytes : List UInt8) (a : Appender) : Int × Appender :=
  if a.size - a.buffer.length ≤ bytes.length then (-eNoMem, a)
  else (0, { a with buffer := a.buffer ++ bytes })

def measureBytes (bytes : List UInt8) (total : Int) : Int × Int := (0, total + bytes.length)

def jsonObjEncodeBuf (src : Source) (descr : List Descr) (val : Int) (bufSize : Nat) : Int × Appender :=
  jsonObjEncode appendBytesToBuf src descr val ⟨[], bufSize⟩

-- A STRING_BUF value that fits its buffer but not once escaped: the two bytes
-- a" in a char[3] are written as a\", which decode_string_buf refuses.
theorem json_obj_round_trip_escaped_overflow :
    let descr : List Descr := [.mk (bytesOf "s") 0 .stringBuf 0 (.field 3)]
    let src : Source := ⟨fun p => if p = 0 then some (.chars (bytesOf "a\"")) else none, fun _ => [], fun _ => 0⟩
    let e := jsonObjEncodeBuf src descr 0 64
    e.1 = 0 ∧ (jsonObjParse 8 (.ofBytes e.2.buffer) e.2.buffer.length descr 0).map Prod.fst = some (-eInval) := by
  decide +kernel

def jsonCalcEncodedLen (src : Source) (descr : List Descr) (val : Int) : Int :=
  let r := jsonObjEncode measureBytes src descr val 0
  if r.1 < 0 then r.1 else r.2

/-! json_mixed_arr_encode -/

section MixedEncode

variable {σ : Type} (append : List UInt8 → σ → Int × σ)

mutual

def encodeMixedValue (src : Source) (elem : MixedDescr) (field val : Int) (s : σ) : Int × σ :=
  match elem with
  | .mk .objectStart _ (.object sub _) => jsonObjEncode append src sub field s
  | .mk .arrayStart _ (.array e _ _) =>
    let e := if e.type = .arrayStart then (e.elementDescr).getD e else e
    arrEncode append src e field val s
  | .mk .mixedArray _ (.mixedArray sub _) => jsonMixedArrEncode src sub field s
  | elem => encodeLeaf append src elem.type elem.size field.toNat s
termination_by sizeOf elem

def jsonMixedArrEncode (src : Source) (descr : List MixedDescr) (val : Int) (s : σ) : Int × σ :=
  match descr with
  | [] => append (bytesOf "[]") s
  | .mk type countOffset body :: ds =>
    -- the element count is where descr[0] says
    let elementCount := src.count (val + countOffset).toNat
    let r := append (bytesOf "[") s
    if r.1 < 0 then r
    else
      let l := mixedElems src val elementCount 0 (.mk type countOffset body :: ds) r.2
      if l.1 < 0 then l else append (bytesOf "]") l.2
termination_by sizeOf descr + 1

-- The loop of json_mixed_arr_encode from element i: it stops at the count or
-- at the end of the descriptors, and puts a comma after every element but the
-- count's last.
def mixedElems (src : Source) (val : Int) (elementCount : Nat) (i : Nat) : List MixedDescr → σ → Int × σ
  | [], s => (0, s)
  | d :: ds, s =>
    if i < elementCount then
      let r := encodeMixedValue src d (val + d.offset) val s
      if r.1 < 0 then r
      else
        let c := if i < elementCount - 1 then append (bytesOf ",") r.2 else (0, r.2)
        if c.1 < 0 then c else mixedElems src val elementCount (i + 1) ds c.2
    else (0, s)
termination_by ds => sizeOf ds

end

end MixedEncode

def jsonMixedArrEncodeBuf (src : Source) (descr : List MixedDescr) (val : Int) (bufSize : Nat) : Int × Appender :=
  jsonMixedArrEncode appendBytesToBuf src descr val ⟨[], bufSize⟩

def jsonCalcMixedArrLen (src : Source) (descr : List MixedDescr) (val : Int) : Int :=
  let r := jsonMixedArrEncode measureBytes src descr val 0
  if r.1 < 0 then r.1 else r.2

-- A one-element mixed array whose STRING_BUF element a" fits its char[3]: the
-- encoder writes ["a\""], whose length json_calc_mixed_arr_len gives, and
-- decode_string_buf refuses the three escaped bytes, so the parse fails.
theorem json_mixed_arr_round_trip_escaped_overflow :
    let descr : List MixedDescr := [.mk .stringBuf 0 (.primitive 4 3)]
    let src : Source :=
      ⟨fun p => if p = 0 then some (.count 1) else if p = 4 then some (.chars (bytesOf "a\"")) else none,
        fun _ => [], fun _ => 0⟩
    let e := jsonMixedArrEncodeBuf src descr 0 64
    e.1 = 0 ∧ e.2.buffer = bytesOf "[\"a\\\"\"]" ∧ jsonCalcMixedArrLen src descr 0 = e.2.buffer.length ∧
      (jsonMixedArrParse 8 (.ofBytes e.2.buffer) e.2.buffer.length descr 0).map Prod.fst = some (-eInval) := by
  decide +kernel

end Zephyr.Json
