import Zephyr.Json.Lexer

namespace Zephyr.Json

def eInval : Int := 22

def eNoSpc : Int := 28

def eRange : Int := 34

-- struct json_obj_descr; `body` is the union, of which the macros fill the member
-- that `type` selects.
mutual
inductive Descr where
  | mk (fieldName : List UInt8) (alignShift : Nat) (type : TokKind) (offset : Nat) (body : DescrBody)
inductive DescrBody where
  | object (sub : List Descr)
  | array (elem : Descr) (nElements : Nat)
  | field (size : Nat)
end

namespace Descr

def fieldName : Descr → List UInt8 | .mk n _ _ _ _ => n
def alignShift : Descr → Nat | .mk _ a _ _ _ => a
def type : Descr → TokKind | .mk _ _ t _ _ => t
def offset : Descr → Nat | .mk _ _ _ o _ => o

def subDescr : Descr → List Descr
  | .mk _ _ _ _ (.object sub) => sub
  | _ => []

def elementDescr : Descr → Option Descr
  | .mk _ _ _ _ (.array e _) => some e
  | _ => none

def nElements : Descr → Nat
  | .mk _ _ _ _ (.array _ n) => n
  | _ => 0

def fieldSize : Descr → Nat
  | .mk _ _ _ _ (.field s) => s
  | _ => 0

end Descr

-- A value the decoder stores in the output struct, at its address.
inductive Cell where
  | int (v : Int)
  | bool (b : Bool)
  | ptr (p : Nat)
  | chars (s : List UInt8)
  | token (start length : Nat)
  | count (n : Nat)
  | zeros (n : Nat)
deriving DecidableEq, Repr

-- The parser's state: the lexer, the payload it reads and writes, and the struct it fills.
structure PState where
  lex : Lexer
  mem : Mem
  val : Nat → Option Cell

def PState.setVal (st : PState) (addr : Nat) (c : Cell) : PState :=
  { st with val := Function.update st.val addr (some c) }

def PState.nextToken (st : PState) : Option Token × PState :=
  let r := lexerNext st.lex st.mem
  (r.1, { st with lex := r.2.1, mem := r.2.2 })

theorem PState.nextToken_within (st : PState) :
    Within st.lex st.mem st.nextToken.2.lex st.nextToken.2.mem :=
  lexerNext_within st.lex st.mem

def elementToken : TokKind → Int
  | .objectStart | .arrayStart | .string | .stringBuf | .number | .int | .uint | .int64 | .uint64
  | .float | .floatFp | .doubleFp | .opaqueString | .objArray | .true | .false => 0
  | _ => -eInval

def equivalentTypes (type1 type2 : TokKind) : Bool :=
  if type1 = .true ∨ type1 = .false then type2 = .true ∨ type2 = .false
  else if type1 = .arrayStart ∧ type2 = .mixedArray then true
  else if type1 = .number ∧ (type2 = .float ∨ type2 = .floatFp ∨ type2 = .doubleFp ∨ type2 = .int ∨
      type2 = .uint ∨ type2 = .int64 ∨ type2 = .uint64) then true
  else if type1 = .string ∧ (type2 = .opaqueString ∨ type2 = .stringBuf) then true
  else if type2 = .encodedObj then type1 = .objectStart ∨ type1 = .arrayStart ∨ type1 = .string
  else if type1 = .arrayStart ∧ type2 = .objArray then true
  else type1 = type2

-- Sizes on the 32-bit targets: int, long, size_t and pointers have 4 bytes,
-- and struct json_obj_token two words.
def roundUp (n a : Nat) : Nat := (n + a - 1) / a * a

theorem sizeOf_lt_of_getLast? {sub : List Descr} {d : Descr} (h : sub.getLast? = some d) :
    sizeOf d < sizeOf sub :=
  List.sizeOf_lt_of_mem (List.mem_of_getLast? h)

def getElemSize : Descr → Int
  | .mk _ _ .number _ _ => 4
  | .mk _ _ .int64 _ _ => 8
  | .mk _ _ .uint64 _ _ => 8
  | .mk _ _ .floatFp _ _ => 4
  | .mk _ _ .doubleFp _ _ => 8
  | .mk _ _ .opaqueString _ _ | .mk _ _ .float _ _ | .mk _ _ .objArray _ _ => 8
  | .mk _ _ .string _ _ | .mk _ _ .encodedObj _ _ => 4
  | .mk _ _ .int _ (.field s) | .mk _ _ .uint _ (.field s) | .mk _ _ .stringBuf _ (.field s)
  | .mk _ _ .null _ (.field s) => s
  | .mk _ _ .true _ _ | .mk _ _ .false _ _ => 1
  | .mk name _ .arrayStart _ (.array e n) =>
    -- a named array is followed by its element count
    n * getElemSize e + if name.length > 0 then 4 else 0
  | .mk _ _ .objectStart _ (.object sub) =>
    let align := (sub.map Descr.alignShift).foldr max 0
    match h : sub.getLast? with
    | some last => (roundUp (last.offset + getElemSize last).toNat (2 ^ align) : Nat)
    | none => 0
  | _ => -eInval
termination_by d => sizeOf d
decreasing_by
  · simp_wf; omega
  · have := sizeOf_lt_of_getLast? h
    simp_wf; omega

-- What strtol and its kin give back: the value, the end pointer and whether
-- errno was set to ERANGE.
structure Conv where
  value : Int
  endPtr : Nat
  erange : Bool
deriving DecidableEq, Repr

def skipSpaces : Nat → Mem → Nat → Nat × Mem
  | 0, m, i => (i, m)
  | n + 1, m, i =>
    let r := m.load i
    if isSpace r.1 then skipSpaces n r.2 (i + 1) else (i, r.2)

theorem skipSpaces_reads (n : Nat) (m : Mem) (i : Nat) : m.Reads (fun _ => True) (skipSpaces n m i).2 := by
  induction n generalizing m i with
  | zero => exact .refl _ m
  | succ n ih =>
    unfold skipSpaces
    dsimp only
    split
    · exact (Mem.Reads.load m trivial).trans (ih _ _)
    · exact Mem.Reads.load m trivial

-- The digits from `i`: their value and where they stop.
def scanDigits : Nat → Mem → Nat → Nat → Nat × Nat × Mem
  | 0, m, i, acc => (acc, i, m)
  | n + 1, m, i, acc =>
    let r := m.load i
    if isDigit r.1 then scanDigits n r.2 (i + 1) (acc * 10 + (r.1.toNat - 48)) else (acc, i, r.2)

theorem scanDigits_reads (n : Nat) (m : Mem) (i acc : Nat) :
    m.Reads (fun _ => True) (scanDigits n m i acc).2.2 := by
  induction n generalizing m i acc with
  | zero => exact .refl _ m
  | succ n ih =>
    unfold scanDigits
    dsimp only
    split
    · exact (Mem.Reads.load m trivial).trans (ih _ _ _)
    · exact Mem.Reads.load m trivial

-- strtol, strtoul, strtoll and strtoull in base 10, for a result of `bits` bits,
-- on a string that a NUL ends within `bound` bytes. Out of range a signed result
-- saturates with ERANGE; an unsigned one does too, and a negated unsigned one wraps.
def strtoInt (m : Mem) (start bound bits : Nat) (signed : Bool) : Conv × Mem :=
  let sp := skipSpaces bound m start
  let c := sp.2.load sp.1
  let neg := c.1 = byte '-'
  let i := if c.1 = byte '-' ∨ c.1 = byte '+' then sp.1 + 1 else sp.1
  let d := scanDigits bound c.2 i 0
  if d.2.1 = i then (⟨0, start, false⟩, d.2.2)
  else
    let v : Int := if neg then -(d.1 : Int) else d.1
    if signed then
      if v < -(2 ^ (bits - 1) : Int) then (⟨-(2 ^ (bits - 1) : Int), d.2.1, true⟩, d.2.2)
      else if (2 ^ (bits - 1) - 1 : Int) < v then (⟨2 ^ (bits - 1) - 1, d.2.1, true⟩, d.2.2)
      else (⟨v, d.2.1, false⟩, d.2.2)
    else if 2 ^ bits - 1 < d.1 then (⟨2 ^ bits - 1, d.2.1, true⟩, d.2.2)
    else (⟨v % 2 ^ bits, d.2.1, false⟩, d.2.2)

theorem strtoInt_reads (m : Mem) (start bound bits : Nat) (signed : Bool) :
    m.Reads (fun _ => True) (strtoInt m start bound bits signed).2 := by
  unfold strtoInt
  dsimp only
  split_ifs <;> exact ((skipSpaces_reads bound m start).trans (Mem.Reads.load _ trivial)).trans
    (scanDigits_reads bound _ _ 0)

-- The common body of decode_int32, decode_uint32, decode_int64 and
-- decode_uint64: the token is cut by a NUL at its end for the conversion, and
-- the byte there is put back.
def decodeNumber (st : PState) (token : Token) (bits : Nat) (signed : Bool) : Int × Conv × PState :=
  let prevEnd := st.mem.load token.stop
  let m := prevEnd.2.store token.stop 0
  let c := strtoInt m token.start (token.stop + 1 - token.start) bits signed
  let m := c.2.store token.stop prevEnd.1
  let ret := if c.1.erange then -eRange else if c.1.endPtr ≠ token.stop then -eInval else 0
  (ret, c.1, { st with mem := m })

-- The NUL that decode_int32 and its kin put at the end of the token is taken
-- away again: the payload is as it was, and the only writes are at the token's end.
theorem decodeNumber_restores (st : PState) (token : Token) (bits : Nat) (signed : Bool) :
    (decodeNumber st token bits signed).2.2.mem.bytes = st.mem.bytes ∧
      ∀ a ∈ (decodeNumber st token bits signed).2.2.mem.trace,
        a ∈ st.mem.trace ∨ (∃ i, a = .read i) ∨ a = .write token.stop := by
  obtain ⟨hb, hg⟩ := strtoInt_reads ((st.mem.load token.stop).2.store token.stop 0) token.start
    (token.stop + 1 - token.start) bits signed
  refine ⟨?_, ?_⟩
  · simp only [Mem.store, Mem.load] at hb
    simp only [decodeNumber, Mem.store, Mem.load, hb, Function.update_idem, Function.update_eq_self]
  · intro a ha
    simp only [decodeNumber, Mem.store, List.mem_cons] at ha
    rcases ha with rfl | ha
    · exact Or.inr (Or.inr rfl)
    · rcases hg.mem ha with ha | ⟨i, -, rfl⟩
      · simp only [Mem.store, Mem.load, List.mem_cons] at ha
        rcases ha with rfl | rfl | ha
        · exact Or.inr (Or.inr rfl)
        · exact Or.inr (Or.inl ⟨_, rfl⟩)
        · exact Or.inl ha
      · exact Or.inr (Or.inl ⟨i, rfl⟩)

-- decode_int32 and its kin store the converted value even when they fail.
def decodeInt32 (st : PState) (token : Token) (field : Nat) : Int × PState :=
  let r := decodeNumber st token 32 true
  (r.1, r.2.2.setVal field (.int r.2.1.value))

def decodeUint32 (st : PState) (token : Token) (field : Nat) : Int × PState :=
  let r := decodeNumber st token 32 false
  (r.1, r.2.2.setVal field (.int r.2.1.value))

def decodeInt64 (st : PState) (token : Token) (field : Nat) : Int × PState :=
  let r := decodeNumber st token 64 true
  (r.1, r.2.2.setVal field (.int r.2.1.value))

def decodeUint64 (st : PState) (token : Token) (field : Nat) : Int × PState :=
  let r := decodeNumber st token 64 false
  (r.1, r.2.2.setVal field (.int r.2.1.value))

-- decode_int8, decode_int16, decode_uint8 and decode_uint16 convert through a
-- 32-bit local and store only a value in range.
def decodeNarrow (st : PState) (token : Token) (field : Nat) (signed : Bool) (lo hi : Int) : Int × PState :=
  let r := decodeNumber st token 32 signed
  if r.1 ≠ 0 then (r.1, r.2.2)
  else if r.2.1.value < lo ∨ hi < r.2.1.value then (-eInval, r.2.2)
  else (0, r.2.2.setVal field (.int r.2.1.value))

def decodeInt (st : PState) (token : Token) (field size : Nat) : Int × PState :=
  match size with
  | 1 => decodeNarrow st token field true (-128) 127
  | 2 => decodeNarrow st token field true (-32768) 32767
  | 4 => decodeInt32 st token field
  | 8 => decodeInt64 st token field
  | _ => (-eInval, st)

def decodeUint (st : PState) (token : Token) (field size : Nat) : Int × PState :=
  match size with
  | 1 => decodeNarrow st token field false 0 255
  | 2 => decodeNarrow st token field false 0 65535
  | 4 => decodeUint32 st token field
  | 8 => decodeUint64 st token field
  | _ => (-eInval, st)

def unescape (c : UInt8) : List UInt8 :=
  if c = byte '"' then [byte '"']
  else if c = byte '\\' then [byte '\\']
  else if c = byte '/' then [byte '/']
  else if c = byte 'b' then [8]
  else if c = byte 'f' then [12]
  else if c = byte 'n' then [10]
  else if c = byte 'r' then [13]
  else if c = byte 't' then [9]
  -- an unknown escape sequence is copied as it is
  else [byte '\\', c]

-- The loop of json_unescape_string from `src` to `srcEnd`, writing at most to
-- `dstEnd`: the bytes it writes, or none for a backslash at the end.
set_option linter.unusedVariables false in
def unescapeLoop (m : Mem) (src srcEnd : Nat) (out : List UInt8) (dstEnd : Nat) :
    Option (List UInt8) × Mem :=
  if h : src < srcEnd ∧ out.length < dstEnd then
    let c := m.load src
    if c.1 = byte '\\' then
      if srcEnd ≤ src + 1 then (none, c.2)
      else
        let e := c.2.load (src + 1)
        unescapeLoop e.2 (src + 2) srcEnd (out ++ unescape e.1) dstEnd
    else unescapeLoop c.2 (src + 1) srcEnd (out ++ [c.1]) dstEnd
  else (some out, m)
termination_by srcEnd - src

def decodeStringBuf (st : PState) (token : Token) (field size : Nat) : Int × PState :=
  let escapedLen := token.stop - token.start
  -- never copy more than size - 1 bytes, to leave room for the NUL
  let safeLen := if escapedLen < size then escapedLen else size - 1
  let r := unescapeLoop st.mem token.start (token.start + safeLen) [] (size - 1)
  match r.1 with
  | none => (-eInval, { st with mem := r.2 })
  | some out =>
    let st := { st with mem := r.2 }.setVal field (.chars out)
    if size ≤ escapedLen then (-eInval, st) else (0, st)

end Zephyr.Json
