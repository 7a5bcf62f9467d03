import Mathlib

namespace Zephyr.Cbprintf

def eFault : Int := 14

def eInval : Int := 22

def eNoSpc : Int := 28

-- The C types cbvprintf_package takes arguments as.
inductive ArgType where
  | int | long | longLong | intmax | sizeT | ptrdiff | ptr | double | longDouble
deriving DecidableEq, Repr

-- sizeof and VA_STACK_ALIGN of each type, CBPRINTF_PACKAGE_ALIGNMENT and
-- sizeof(union cbprintf_package_hdr).
structure Abi where
  size : ArgType → Nat
  align : ArgType → Nat
  pkgAlign : Nat
  hdrSize : Nat

-- 32-bit Arm: VA_STACK_ALIGN is the alignment of the type, and long double is double.
def arm32 : Abi where
  size := fun
    | .longLong | .intmax | .double | .longDouble => 8
    | _ => 4
  align := fun
    | .longLong | .intmax | .double | .longDouble => 8
    | _ => 4
  pkgAlign := 8
  hdrSize := 4

def byte (c : Char) : UInt8 := c.toNat.toUInt8

def bytesOf (s : String) : List UInt8 := s.toList.map byte

def leBytes (v : Nat) : Nat → List UInt8
  | 0 => []
  | n + 1 => (v % 256).toUInt8 :: leBytes (v / 256) n

def leValue : List UInt8 → Nat
  | [] => 0
  | b :: bs => b.toNat + 256 * leValue bs

-- The package buffer, by offset from packaged, with every offset written, latest first.
structure Buf where
  bytes : Nat → UInt8
  writes : List Nat

def Buf.store (b : Buf) (off : Nat) : List UInt8 → Buf
  | [] => b
  | x :: xs => Buf.store ⟨Function.update b.bytes off x, off :: b.writes⟩ (off + 1) xs

def Buf.load (b : Buf) (off n : Nat) : List UInt8 := (List.range n).map fun i => b.bytes (off + i)

-- What a call reads: the ABI, which addresses are read-only, the string at each
-- address (the bytes before its NUL), packaged (none for NULL) and the flags.
structure Cfg where
  abi : Abi
  inRodata : Nat → Bool
  str : Nat → List UInt8
  packaged : Option Nat
  flags : Nat

namespace Cfg

variable (c : Cfg)

def base : Nat := c.packaged.getD 0

def rwsPosEn : Bool := c.flags &&& 4 ≠ 0

def doRo : Bool := c.flags &&& 2 ≠ 0

def intSize : Nat := c.abi.size .int

def ptrSize : Nat := c.abi.size .ptr

end Cfg

-- The locals of cbvprintf_package that its loop carries, the buffer and the
-- arguments left in the va_list.
structure Pkg where
  buf : Nat
  len : Nat
  out : Buf
  strPtrPos : List Nat
  strPtrArg : List Nat
  sIdx : Nat
  sRwCnt : Nat
  sRoCnt : Nat
  argIdx : Int
  frosCnt : Int
  args : List Nat

-- A return ends the call with the state it had.
abbrev PkgM := ExceptT Int (StateM Pkg)

def roundUp (x a : Nat) : Nat := (x + a - 1) / a * a

section Package

variable (c : Cfg)

def bufOffset : PkgM Nat := return (← get).buf - c.base

-- va_arg: an argument past the end of the list reads as 0.
def vaArg : PkgM Nat := do
  match (← get).args with
  | [] => return 0
  | a :: rest =>
    modify fun p => { p with args := rest }
    return a

def storeHere (bytes : List UInt8) : PkgM Unit := do
  if c.packaged.isSome then
    let off ← bufOffset c
    modify fun p => { p with out := p.out.store off bytes }

-- The code from process_string: the pointer to the string `s` goes into the
-- argument area, and a string that is not read-only, or any string with
-- CBPRINTF_PACKAGE_ADD_RO_STR_POS, is remembered or counted.
def processString (s : Nat) : PkgM Unit := do
  storeHere c (leBytes s c.ptrSize)
  let p ← get
  let isRo := if p.frosCnt > 0 then true else c.inRodata s
  set { p with frosCnt := p.frosCnt - 1 }
  if !(isRo && !c.doRo) then
    let sPtrIdx := (← bufOffset c) / c.intSize
    if c.doRo && sPtrIdx > 127 then throw (-eInval)
    if (← get).sIdx ≥ 16 then throw (-eInval)
    if c.packaged.isSome then
      modify fun p =>
        { p with
          strPtrPos := p.strPtrPos ++ [if isRo then sPtrIdx % 256 ||| 128 else sPtrIdx % 256]
          strPtrArg := p.strPtrArg ++ [(p.argIdx % 256).toNat]
          sRoCnt := if isRo then p.sRoCnt + 1 else p.sRoCnt
          sRwCnt := if isRo then p.sRwCnt else p.sRwCnt + 1 }
    else if isRo then modify fun p => { p with len := p.len + 1 }
    else if c.rwsPosEn then modify fun p => { p with len := p.len + 2 }
    else modify fun p => { p with len := p.len + (c.str s).length + 1 + 1 }
    modify fun p => { p with sIdx := p.sIdx + 1 }
  modify fun p => { p with buf := p.buf + c.ptrSize }

-- Align the position for an argument of `size` bytes and check that it fits.
def reserve (align size : Nat) : PkgM Unit := do
  modify fun p => { p with buf := roundUp p.buf align }
  if c.packaged.isSome && (← bufOffset c) + size > (← get).len then throw (-eNoSpc)

-- The argument after the switch: a string, or an int, long or long long by its size.
def storeArg (align size : Nat) (isStrArg : Bool) : PkgM Unit := do
  reserve c align size
  let v ← vaArg
  if isStrArg then processString c v
  else if size = c.intSize ∨ size = c.abi.size .long ∨ size = c.abi.size .longLong then
    storeHere c (leBytes v size)
    modify fun p => { p with buf := p.buf + size }
  else throw (-eInval)

def storeFloat (ty : ArgType) : PkgM Unit := do
  let v ← vaArg
  reserve c (c.abi.align ty) (c.abi.size ty)
  storeHere c (leBytes v (c.abi.size ty))
  modify fun p => { p with buf := p.buf + c.abi.size ty }

def isFlagChar (ch : UInt8) : Bool :=
  ch = byte '#' || ch = byte '-' || ch = byte '+' || ch = byte ' ' || (byte '0' ≤ ch && ch ≤ byte '9') ||
    ch = byte '.' || ch = byte 'h' || ch = byte 'l' || ch = byte 'L'

def isIntConv (ch : UInt8) : Bool :=
  ch = byte 'c' || ch = byte 'd' || ch = byte 'i' || ch = byte 'o' || ch = byte 'u' || ch = byte 'x' ||
    ch = byte 'X'

def isFloatConv (ch : UInt8) : Bool :=
  ch = byte 'a' || ch = byte 'A' || ch = byte 'e' || ch = byte 'E' || ch = byte 'f' || ch = byte 'F' ||
    ch = byte 'g' || ch = byte 'G'

-- The scan of the format string: `rest` is what follows the current character
-- and `before` what precedes it, nearest first.
def scan : List UInt8 → List UInt8 → Bool → Nat → Nat → PkgM Unit
  | [], _, _, _, _ => return ()
  | ch :: rest, before, parsing, align, size => do
    let prev1 := before.headD 0
    let prev2 := before.tail.headD 0
    let before := ch :: before
    if ch = 0 then return ()
    if !parsing then
      if ch = byte '%' then
        modify fun p => { p with argIdx := p.argIdx + 1 }
        scan rest before true (c.abi.align .int) c.intSize
      else scan rest before false align size
    else if ch = byte '%' then
      modify fun p => { p with argIdx := p.argIdx - 1 }
      scan rest before false align size
    else if isFlagChar ch then scan rest before true align size
    else if ch = byte '*' then
      storeArg c align size false
      scan rest before true align size
    else if ch = byte 'j' then scan rest before true (c.abi.align .intmax) (c.abi.size .intmax)
    else if ch = byte 'z' then scan rest before true (c.abi.align .sizeT) (c.abi.size .sizeT)
    else if ch = byte 't' then scan rest before true (c.abi.align .ptrdiff) (c.abi.size .ptrdiff)
    else if isIntConv ch then
      let ty := if prev2 = byte 'l' then ArgType.longLong else .long
      let (align, size) := if prev1 = byte 'l' then (c.abi.align ty, c.abi.size ty) else (align, size)
      storeArg c align size false
      scan rest before false align size
    else if ch = byte 's' ∨ ch = byte 'p' ∨ ch = byte 'n' then
      storeArg c (c.abi.align .ptr) c.ptrSize (ch = byte 's')
      scan rest before false (c.abi.align .ptr) c.ptrSize
    else if isFloatConv ch then
      storeFloat c (if prev1 = byte 'L' then .longDouble else .double)
      scan rest before false align size
    else scan rest before false align size

-- After the arguments: the header, the positions of the read-only strings, and
-- the read-write strings (or their positions with CBPRINTF_PACKAGE_ADD_RW_STR_POS).
def storeRoPositions : List Nat → PkgM Unit
  | [] => return ()
  | pos :: rest => do
    if pos &&& 128 ≠ 0 then
      if (← bufOffset c) + 1 > (← get).len then throw (-eNoSpc)
      storeHere c [(pos &&& 127).toUInt8]
      modify fun p => { p with buf := p.buf + 1 }
    storeRoPositions rest

def storeRwStrings : List (Nat × Nat) → PkgM Unit
  | [] => return ()
  | (pos, arg) :: rest => do
    if (← get).sRoCnt ≠ 0 ∧ pos &&& 128 ≠ 0 then storeRwStrings rest
    else
      let (size, s) ← if c.rwsPosEn then do
          -- the argument index goes in before the space is checked
          storeHere c [arg.toUInt8]
          modify fun p => { p with buf := p.buf + 1 }
          pure (0, [])
        else do
          let loc := pos * c.intSize
          let s := c.str (leValue ((← get).out.load loc c.ptrSize))
          modify fun p => { p with out := p.out.store loc (leBytes 0 c.ptrSize) }
          pure (s.length + 1, s ++ [0])
      if (← bufOffset c) + 1 + size > (← get).len then throw (-eNoSpc)
      storeHere c [pos.toUInt8]
      modify fun p => { p with buf := p.buf + 1 }
      storeHere c s
      modify fun p => { p with buf := p.buf + size }
      storeRwStrings rest

def finish : PkgM Int := do
  let off ← bufOffset c
  if off / c.intSize > 255 then throw (-eInval)
  if c.packaged.isNone then return off + (← get).len - c.abi.pkgAlign
  let p ← get
  -- desc.len, desc.str_cnt, desc.ro_str_cnt and desc.rw_str_cnt over the cleared header
  let desc := [(off / c.intSize).toUInt8, (if c.rwsPosEn then 0 else p.sRwCnt).toUInt8, p.sRoCnt.toUInt8,
    (if c.rwsPosEn then p.sRwCnt else 0).toUInt8]
  set { p with out := (p.out.store 0 (leBytes 0 c.ptrSize)).store 0 desc }
  if p.sRoCnt ≠ 0 then storeRoPositions c p.strPtrPos
  storeRwStrings c (p.strPtrPos.zip p.strPtrArg)
  bufOffset c

-- cbvprintf_package(packaged, len, flags, fmt, ap) for a format string at
-- address fmt, without tagged arguments.
def cbvprintfPackage (len fmt : Nat) (args : List Nat) : Int × Buf :=
  let body : PkgM Int := do
    if c.base % c.ptrSize ≠ 0 then throw (-eFault)
    modify fun p => { p with buf := p.buf + c.abi.hdrSize }
    -- counting: len gives the misalignment to allow for and becomes the sum of the string data
    if c.packaged.isNone then
      modify fun p => { p with buf := p.buf + len % c.abi.pkgAlign, len := c.abi.pkgAlign - len % c.abi.pkgAlign }
    if c.packaged.isSome && (← bufOffset c) + c.ptrSize > len then throw (-eNoSpc)
    processString c fmt
    scan c (c.str fmt) [] false (c.abi.align .ptr) c.ptrSize
    finish c
  let r := body.run ⟨c.base, len, ⟨fun _ => 0, []⟩, [], [], 0, 0, 0, -1, 1 + ((c.flags >>> 3) &&& 7 : Nat), args⟩
  match r with
  | (.ok v, p) => (v, p.out)
  | (.error e, p) => (e, p.out)

end Package

-- With CBPRINTF_PACKAGE_ADD_RW_STR_POS, "%s" of a string in RAM takes 14 bytes.
-- Given 12, the call stores the argument index byte at packaged[12] before it
-- finds there is no room for the position byte.
theorem cbvprintf_package_rw_pos_writes_past_len :
    let c : Cfg := ⟨arm32, fun a => decide (a < 0x10000), fun a => if a = 0x1000 then bytesOf "%s" else [],
      some 0x20000000, 4⟩
    (cbvprintfPackage { c with packaged := none } 0 0x1000 [0x20001000]).1 = 14 ∧
      (cbvprintfPackage c 12 0x1000 [0x20001000]).1 = -eNoSpc ∧
      12 ∈ (cbvprintfPackage c 12 0x1000 [0x20001000]).2.writes := by
  decide

end Zephyr.Cbprintf
