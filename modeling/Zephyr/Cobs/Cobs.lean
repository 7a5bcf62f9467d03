import Zephyr.Lib.Stream

namespace Zephyr.Cobs

open Zephyr.Lib

def eInval : Int := 22

-- COBS_FLAG_TRAILING_DELIMITER and COBS_FLAG_CUSTOM_DELIMITER(x).
def trailingDelimiter : Nat := 256

def customDelimiter (flags : Nat) : UInt8 := (flags &&& 0xff).toUInt8

def hasTrailing (flags : Nat) : Bool := flags &&& trailingDelimiter ≠ 0

-- size_t arithmetic taken as exact.
def cobsMaxEncodedLen (decodedSize flags : Nat) : Nat :=
  if flags &&& trailingDelimiter ≠ 0 then decodedSize + decodedSize / 254 + 1 + 1
  else decodedSize + decodedSize / 254 + 1

-- cobs_stream_cb: what a call cb(buf, len, user_data) returns and leaves of
-- user_data, given the len bytes at buf, or none for (NULL, 0).
abbrev StreamCb (σ : Type) := σ → Option (List UInt8) → Int × σ

section Encoder

variable {σ : Type}

structure Encoder (σ : Type) where
  cb : StreamCb σ
  cbUserData : σ
  -- fragment[1 .. fragment[0]), the bytes of the open group; fragment[0] is one more than their number
  fragment : List UInt8
  flags : Nat

namespace Encoder

variable (enc : Encoder σ)

def reset : Encoder σ := { enc with fragment := [] }

def call (ch : Option (List UInt8)) : Int × Encoder σ :=
  let r := enc.cb enc.cbUserData ch
  (r.1, { enc with cbUserData := r.2 })

end Encoder

def cobsEncoderFinish (enc : Encoder σ) (close : Bool) : Int × Encoder σ :=
  let sentinel := customDelimiter enc.flags
  let frag := (enc.fragment.length + 1).toUInt8 :: enc.fragment
  let frag := if sentinel ≠ 0 then frag.map (· ^^^ sentinel) else frag
  let (ret, enc) := enc.call (some frag)
  if ret < 0 then (ret, enc.reset)
  else if close && enc.flags &&& trailingDelimiter ≠ 0 then
    let (ret, enc) := enc.call (some [sentinel])
    if ret < 0 then (ret, enc.reset) else (0, enc.reset)
  else (0, enc.reset)

def cobsEncoderInit (cb : Option (StreamCb σ)) (userData : σ) (flags : Nat) : Except Int (Encoder σ) :=
  match cb with
  | none => .error (-eInval)
  | some cb => .ok ⟨cb, userData, [], flags⟩

def cobsEncoderClose (enc : Encoder σ) : Int × Encoder σ := cobsEncoderFinish enc true

-- The body of cobs_encoder_write's loop, for one byte.
def encoderByte (enc : Encoder σ) (x : UInt8) : Option Int × Encoder σ :=
  -- a full group goes out before the byte is looked at
  let (ret, enc) := if enc.fragment.length + 1 = 0xff then cobsEncoderFinish enc false else (0, enc)
  if ret < 0 then (some ret, enc)
  else if x = 0 then
    let (ret, enc) := cobsEncoderFinish enc false
    if ret < 0 then (some ret, enc) else (none, enc)
  else (none, { enc with fragment := enc.fragment ++ [x] })

def cobsEncoderWrite (enc : Encoder σ) (buf : List UInt8) : Int × Encoder σ :=
  match runStream encoderByte enc buf with
  | (some ret, enc) => (ret, enc)
  | (none, enc) => (buf.length, enc)

end Encoder

section Decoder

variable {σ : Type}

structure Decoder (σ : Type) where
  cb : StreamCb σ
  cbUserData : σ
  code : UInt8
  codeIndex : UInt8
  flags : Nat

namespace Decoder

variable (dec : Decoder σ)

def reset : Decoder σ := { dec with code := 0xff, codeIndex := 0 }

def needsMoreData : Bool := dec.codeIndex ≠ 0

def call (ch : Option (List UInt8)) : Int × Decoder σ :=
  let r := dec.cb dec.cbUserData ch
  (r.1, { dec with cbUserData := r.2 })

end Decoder

def cobsDecoderInit (cb : Option (StreamCb σ)) (userData : σ) (flags : Nat) : Except Int (Decoder σ) :=
  match cb with
  | none => .error (-eInval)
  | some cb => .ok (Decoder.reset ⟨cb, userData, 0, 0, flags⟩)

def cobsDecoderClose (dec : Decoder σ) : Int × Decoder σ :=
  (if dec.needsMoreData then -eInval else 0, dec.reset)

-- The body of cobs_decoder_write's loop, for one byte.
def decoderByte (dec : Decoder σ) (b : UInt8) : Option Int × Decoder σ :=
  let data := b ^^^ customDelimiter dec.flags
  if data = 0 then
    if dec.flags &&& trailingDelimiter = 0 ∨ dec.needsMoreData then (some (-eInval), dec.reset)
    else
      -- the frame delimiter
      let (ret, dec) := dec.call none
      if ret < 0 then (some ret, dec.reset) else (none, dec.reset)
  else if dec.codeIndex > 0 then
    let (ret, dec) := dec.call (some [data])
    if ret < 0 then (some ret, dec.reset) else (none, { dec with codeIndex := dec.codeIndex - 1 })
  else
    let dec := { dec with codeIndex := data }
    -- the group before ends in a zero, unless it was a full one or the frame starts here
    let (ret, dec) := if dec.code ≠ 0xff then dec.call (some [0]) else (0, dec)
    if ret < 0 then (some ret, dec.reset)
    else (none, { dec with code := dec.codeIndex, codeIndex := dec.codeIndex - 1 })

def cobsDecoderWrite (dec : Decoder σ) (buf : List UInt8) : Int × Decoder σ :=
  match runStream decoderByte dec buf with
  | (some ret, dec) => (ret, dec)
  | (none, dec) => (buf.length, dec)

end Decoder

end Zephyr.Cobs
