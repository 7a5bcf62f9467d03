import Zephyr.Json.Decode

namespace Zephyr.Json

-- struct json_mixed_arr_descr; `body` is its union.
mutual
inductive MixedDescr where
  | mk (type : TokKind) (countOffset : Nat) (body : MixedBody)
inductive MixedBody where
  | primitive (offset size : Nat)
  | object (sub : List Descr) (offset : Nat)
  | array (elem : Descr) (nElements offset : Nat)
  | mixedArray (sub : List MixedDescr) (offset : Nat)
end

namespace MixedDescr

def type : MixedDescr → TokKind | .mk t _ _ => t
def body : MixedDescr → MixedBody | .mk _ _ b => b

-- The offset of the element, taken from the union member its type selects.
def offset (d : MixedDescr) : Nat :=
  match d.type, d.body with
  | .objectStart, .object _ o => o
  | .arrayStart, .array _ _ o => o
  | .mixedArray, .mixedArray _ o => o
  | _, .primitive o _ => o
  | _, _ => 0

def size : MixedDescr → Nat
  | .mk _ _ (.primitive _ s) => s
  | _ => 0

end MixedDescr

structure KeyValue where
  key : Nat
  keyLen : Nat
  value : Token

def KeyValue.empty : KeyValue := ⟨0, 0, ⟨.none, 0, 0⟩⟩

-- The key of a member: a string, after a comma or on its own.
def objKey (tok : Token) (st : PState) : Option Token × PState :=
  if tok.kind = .comma then
    match st.nextToken with
    | (some t, st) => (if t.kind = .string then some t else none, st)
    | (none, st) => (none, st)
  else if tok.kind = .string then (some tok, st) else (none, st)

def objNext (st : PState) : Int × KeyValue × PState :=
  match st.nextToken with
  | (none, st) => (-eInval, .empty, st)
  | (some tok, st) =>
    if tok.kind = .objectEnd then (0, ⟨0, 0, tok⟩, st)
    else
      match objKey tok st with
      | (none, st) => (-eInval, .empty, st)
      | (some key, st) =>
        match st.nextToken with
        | (none, st) => (-eInval, .empty, st)
        | (some colon, st) =>
          if colon.kind ≠ .colon then (-eInval, .empty, st)
          else
            match st.nextToken with
            | (none, st) => (-eInval, .empty, st)
            | (some v, st) => (elementToken v.kind, ⟨key.start, key.stop - key.start, v⟩, st)

-- arr_next writes the token it reads into `value`, which keeps what it had when no token comes.
def arrNext (st : PState) (value : Token) : Int × Token × PState :=
  match st.nextToken with
  | (none, st) => (-eInval, value, st)
  | (some v, st) =>
    if v.kind = .arrayEnd then (0, v, st)
    else if v.kind = .comma then
      match st.nextToken with
      | (none, st) => (-eInval, v, st)
      | (some w, st) => (elementToken w.kind, w, st)
    else (elementToken v.kind, v, st)

-- The loop of skip_field. Every call of the parser from here on takes a fuel
-- argument that each loop round and each nested call uses up, and gives none
-- when it runs out.
def skipLoop : Nat → PState → Nat → Token → Option (Int × Token × PState)
  | 0, _, _, _ => none
  | fuel + 1, st, fieldCount, value =>
    if fieldCount = 0 then some (0, value, st)
    else
      match st.nextToken with
      | (none, st) => some (0, value, st)
      | (some v, st) =>
        if v.kind = .objectStart ∨ v.kind = .arrayStart then skipLoop fuel st (fieldCount + 1) v
        else if v.kind = .objectEnd ∨ v.kind = .arrayEnd then skipLoop fuel st (fieldCount - 1) v
        else if v.kind = .error then some (-eInval, v, st)
        else skipLoop fuel st fieldCount v

def skipField (fuel : Nat) (st : PState) (kv : KeyValue) : Option (Int × KeyValue × PState) :=
  if kv.value.kind = .objectStart ∨ kv.value.kind = .arrayStart then
    (skipLoop fuel st 1 kv.value).map fun r => (r.1, { kv with value := r.2.1 }, r.2.2)
  else some (0, kv, st)

-- The loop of arr_data_parse: scan the raw bytes to the matching ']', then put
-- the lexer back in the json state one byte before it.
def arrDataLoop : Nat → PState → Bool → Nat → Nat → Nat → Option (Int × PState)
  | 0, _, _, _, _, _ => none
  | fuel + 1, st, stringState, arrayInArray, start, field =>
    if st.lex.pos = st.lex.stop then some (-eInval, st)
    else
      let c := st.mem.load st.lex.pos
      let st := { st with mem := c.2 }
      let step (stringState : Bool) (arrayInArray : Nat) :=
        arrDataLoop fuel { st with lex := { st.lex with pos := st.lex.pos + 1 } } stringState arrayInArray
          start field
      if stringState then step (c.1 ≠ byte '"') arrayInArray
      else if c.1 = byte ']' then
        if arrayInArray - 1 = 0 then
          let st := st.setVal field (.token start (st.lex.pos - start + 1))
          let pos := st.lex.pos - 1
          some (0, { st with lex := { st.lex with state := some .json, pos := pos, tok := ⟨.none, start, pos⟩ } })
        else step false (arrayInArray - 1)
      else if c.1 = byte '"' then step true arrayInArray
      else if c.1 = byte '[' then step false (arrayInArray + 1)
      else step false arrayInArray

def arrDataParse (fuel : Nat) (st : PState) (start field : Nat) : Option (Int × PState) :=
  arrDataLoop fuel (st.setVal field (.token start 0)) false 1 start field

-- memcmp of a key in the payload with a field name.
def readRange (m : Mem) : Nat → Nat → List UInt8 × Mem
  | _, 0 => ([], m)
  | i, n + 1 =>
    let c := m.load i
    let r := readRange c.2 (i + 1) n
    (c.1 :: r.1, r.2)

-- The int that obj_parse and mixed_arr_parse keep an int64_t result in.
def toInt32 (x : Int) : Int := x.bmod (2 ^ 32)

-- What the loop over the descriptors leaves obj_parse to do.
inductive FieldOutcome where
  | ret (v : Int) (st : PState)
  | next (decoded : Nat) (st : PState)

mutual

def decodeValue : Nat → PState → Descr → Token → Nat → Nat → Option (Int × PState)
  | 0, _, _, _, _, _ => none
  | fuel + 1, st, descr, value, field, val =>
    if !equivalentTypes value.kind descr.type then some (-eInval, st)
    else match descr.type with
    | .objectStart => objParse fuel st descr.subDescr field
    | .arrayStart => arrParse fuel st ((descr.elementDescr).getD descr) descr.nElements field val
    | .objArray => arrDataParse fuel st value.start field
    | .false | .true => some (0, st.setVal field (.bool (value.kind = .true)))
    | .number => some (decodeInt32 st value field)
    | .int => some (decodeInt st value field descr.fieldSize)
    | .uint => some (decodeUint st value field descr.fieldSize)
    | .int64 => some (decodeInt64 st value field)
    | .uint64 => some (decodeUint64 st value field)
    -- without CONFIG_JSON_LIBRARY_FP_SUPPORT
    | .floatFp | .doubleFp => some (-eInval, st)
    | .opaqueString | .float => some (0, st.setVal field (.token value.start (value.stop - value.start)))
    | .string => some (0, ({ st with mem := st.mem.store value.stop 0 }).setVal field (.ptr value.start))
    | .stringBuf => some (decodeStringBuf st value field descr.fieldSize)
    | _ => some (-eInval, st)

def arrParse : Nat → PState → Descr → Nat → Nat → Nat → Option (Int × PState)
  | 0, _, _, _, _, _ => none
  | fuel + 1, st, elemDescr, maxElements, field, val =>
    let elements := val + elemDescr.offset
    -- for nested arrays, skip the parent descriptor to get the elements
    let elemDescr := if elemDescr.type = .arrayStart then (elemDescr.elementDescr).getD elemDescr else elemDescr
    let elemSize := (getElemSize elemDescr).toNat
    arrLoop fuel (st.setVal elements (.count 0)) elemDescr elements 0 elemSize (field + elemSize * maxElements)
      field val ⟨.none, 0, 0⟩

def arrLoop : Nat → PState → Descr → Nat → Nat → Nat → Nat → Nat → Nat → Token → Option (Int × PState)
  | 0, _, _, _, _, _, _, _, _, _ => none
  | fuel + 1, st, elemDescr, elements, count, elemSize, lastElem, field, value, tok =>
    match arrNext st tok with
    | (r, tok, st) =>
      if r ≠ 0 then some (-eInval, st)
      else if tok.kind = .arrayEnd then some (0, st)
      else if field = lastElem then some (-eNoSpc, st)
      else
        let value := if elemDescr.type = .arrayStart then field else value
        match decodeValue fuel st elemDescr tok field value with
        | none => none
        | some (ret, st) =>
          if ret < 0 then some (-eInval, st)
          else arrLoop fuel (st.setVal elements (.count (count + 1))) elemDescr elements (count + 1) elemSize
            lastElem (field + elemSize) value tok

def objParse : Nat → PState → List Descr → Nat → Option (Int × PState)
  | 0, _, _, _ => none
  | fuel + 1, st, descr, val => objLoop fuel st descr val 0

def objLoop : Nat → PState → List Descr → Nat → Nat → Option (Int × PState)
  | 0, _, _, _, _ => none
  | fuel + 1, st, descr, val, decoded =>
    match objNext st with
    | (r, kv, st) =>
      if r ≠ 0 then some (-eInval, st)
      else if kv.value.kind = .objectEnd then some (decoded, st)
      else
        match fieldLoop fuel st descr kv val decoded 0 false 0 with
        | none => none
        | some (.ret v st) => some (v, st)
        | some (.next decoded st) => objLoop fuel st descr val decoded

-- The loop of obj_parse over the descriptors for one member `kv`, from index `i`.
def fieldLoop : Nat → PState → List Descr → KeyValue → Nat → Nat → Nat → Bool → Int → Option FieldOutcome
  | 0, _, _, _, _, _, _, _, _ => none
  | fuel + 1, st, descr, kv, val, decoded, i, anyMatched, ret =>
    match descr[i]? with
    | none =>
      -- no descriptor decoded it: an error if one had its name, else skip the value
      if anyMatched then some (.ret ret st)
      else (skipField fuel st kv).map fun r => if r.1 < 0 then .ret r.1 r.2.2 else .next decoded r.2.2
    | some d =>
      if decoded.testBit i then fieldLoop fuel st descr kv val decoded (i + 1) anyMatched ret
      else if kv.keyLen ≠ d.fieldName.length then fieldLoop fuel st descr kv val decoded (i + 1) anyMatched ret
      else
        let key := readRange st.mem kv.key kv.keyLen
        let st := { st with mem := key.2 }
        if key.1 ≠ d.fieldName then fieldLoop fuel st descr kv val decoded (i + 1) anyMatched ret
        else
          match decodeValue fuel st d kv.value (val + d.offset) val with
          | none => none
          | some (r, st) =>
            let r := toInt32 r
            if r < 0 then
              -- a failed object or array has moved the lexer on: give up
              if kv.value.kind = .objectStart ∨ kv.value.kind = .arrayStart then some (.ret r st)
              else fieldLoop fuel st descr kv val decoded (i + 1) true r
            else some (.next (decoded ||| 1 <<< i) st)

end

-- ENCODED_OBJ: the raw text of an object, array or string, cut by a NUL where it ends.
def extractRawJsonData (fuel : Nat) (st : PState) (value : Token) (field : Nat) : Option (Int × PState) :=
  if value.kind = .objectStart ∨ value.kind = .arrayStart then
    (skipField fuel st ⟨0, 0, value⟩).map fun r =>
      if r.1 < 0 then (r.1, r.2.2)
      else
        let st := r.2.2
        (0, ({ st with mem := st.mem.store st.lex.pos 0 }).setVal field (.ptr value.start))
  else if value.kind = .string then
    some (0, ({ st with mem := st.mem.store value.stop 0 }).setVal field (.ptr value.start))
  else some (-eInval, st)

mutual

def decodeMixedValue : Nat → PState → MixedDescr → Token → Nat → Nat → Option (Int × PState)
  | 0, _, _, _, _, _ => none
  | fuel + 1, st, elem, value, field, val =>
    if !equivalentTypes value.kind elem.type then some (-eInval, st)
    else match elem.type, elem.body with
    | .objectStart, .object sub _ => objParse fuel st sub field
    | .arrayStart, .array e n _ =>
      let e := if e.type = .arrayStart then (e.elementDescr).getD e else e
      arrParse fuel st e n field val
    | .mixedArray, .mixedArray sub _ => mixedArrParse fuel st sub field
    | .false, _ | .true, _ => some (0, st.setVal field (.bool (value.kind = .true)))
    | .number, _ => some (decodeInt32 st value field)
    | .int, _ => some (decodeInt st value field elem.size)
    | .uint, _ => some (decodeUint st value field elem.size)
    | .int64, _ => some (decodeInt64 st value field)
    | .uint64, _ => some (decodeUint64 st value field)
    | .floatFp, _ | .doubleFp, _ => some (-eInval, st)
    | .string, _ => some (0, ({ st with mem := st.mem.store value.stop 0 }).setVal field (.ptr value.start))
    | .stringBuf, _ => some (decodeStringBuf st value field elem.size)
    | .objArray, _ => arrDataParse fuel st value.start field
    | .opaqueString, _ | .float, _ => some (0, st.setVal field (.token value.start (value.stop - value.start)))
    | .encodedObj, _ => extractRawJsonData fuel st value field
    | .null, _ => some (0, st.setVal field (.zeros elem.size))
    | _, _ => some (-eInval, st)

def mixedArrParse : Nat → PState → List MixedDescr → Nat → Option (Int × PState)
  | 0, _, _, _ => none
  | fuel + 1, st, descr, val =>
    if descr = [] then
      match arrNext st ⟨.none, 0, 0⟩ with
      | (r, tok, st) => some (if r = 0 ∧ tok.kind = .arrayEnd then 0 else -eInval, st)
    else mixedLoop fuel st descr val 0 ⟨.none, 0, 0⟩

-- The loop of mixed_arr_parse: a failed arr_next ends it like the end of the
-- array does, with the number of elements decoded.
def mixedLoop : Nat → PState → List MixedDescr → Nat → Nat → Token → Option (Int × PState)
  | 0, _, _, _, _, _ => none
  | fuel + 1, st, descr, val, elemIdx, tok =>
    match arrNext st tok with
    | (r, tok, st) =>
      if r ≠ 0 then some (elemIdx, st)
      else if tok.kind = .arrayEnd then some (elemIdx, st)
      else match descr[elemIdx]? with
        | none => some (-eNoSpc, st)
        | some d =>
          match decodeMixedValue fuel st d tok (val + d.offset) val with
          | none => none
          | some (ret, st) =>
            if toInt32 ret < 0 then some (toInt32 ret, st)
            else mixedLoop fuel st descr val (elemIdx + 1) tok

end

-- The parser on a payload of `len` bytes, before lexer_init's first token.
def PState.init (payload : Mem) (len : Nat) : PState := ⟨lexerInit len, payload, fun _ => none⟩

-- A payload in memory that holds zeros after it.
def Mem.ofBytes (l : List UInt8) : Mem := ⟨fun i => l.getD i 0, []⟩

-- obj_init and arr_init: the first token must open the value.
def openValue (kind : TokKind) (st : PState) : Int × PState :=
  match st.nextToken with
  | (some tok, st) => (if tok.kind = kind then 0 else -eInval, st)
  | (none, st) => (-eInval, st)

def objInit (st : PState) : Int × PState := openValue .objectStart st

def arrInit (st : PState) : Int × PState := openValue .arrayStart st

def jsonObjParse (fuel : Nat) (payload : Mem) (len : Nat) (descr : List Descr) (val : Nat) :
    Option (Int × PState) :=
  let r := objInit (.init payload len)
  if r.1 < 0 then some r else objParse fuel r.2 descr val

-- decode_int32 cuts a number that ends the payload with a NUL at payload[len].
theorem json_obj_parse_writes_at_len :
    (jsonObjParse 8 (.ofBytes (bytesOf "\x7b\"a\":1")) 6 [.mk (bytesOf "a") 2 .number 0 (.field 4)] 0).any
      fun r => r.2.mem.trace.contains (.write 6) := by
  decide +kernel

-- strtoul negates a '-' literal in unsigned long instead of rejecting it, and
-- decode_uint32 keeps the low 32 bits without an error: the field is decoded
-- as 4294967295.
theorem json_uint_accepts_negative :
    (jsonObjParse 16 (.ofBytes (bytesOf "\x7b\"a\":-1\x7d")) 8 [.mk (bytesOf "a") 2 .uint 0 (.field 4)] 0).map
      (fun r => (r.1, r.2.val 0)) = some (1, some (.int 4294967295)) := by
  decide +kernel

-- arr_data_parse leaves the lexer one byte before the closing ']', so obj_next
-- reads a token of the array and the object fails where skipping the member
-- parses it; and it ends a string at an escaped quote, so the raw token of
-- ["\"]"] stops at the ']' inside the string.
theorem json_obj_array_breaks_enclosing_object :
    (jsonObjParse 16 (.ofBytes (bytesOf "\x7b\"e\":[1]\x7d")) 9 [.mk (bytesOf "e") 3 .objArray 0 (.field 16)] 0).map
        Prod.fst = some (-eInval) ∧
      (jsonObjParse 16 (.ofBytes (bytesOf "\x7b\"e\":[1]\x7d")) 9 [] 0).map Prod.fst = some 0 ∧
      (jsonObjParse 16 (.ofBytes (bytesOf "\x7b\"e\":[\"\\\"]\"]\x7d")) 13
        [.mk (bytesOf "e") 3 .objArray 0 (.field 16)] 0).map (fun r => r.2.val 0) = some (some (.token 5 5)) := by
  decide +kernel

def jsonArrParse (fuel : Nat) (payload : Mem) (len : Nat) (descr : Descr) (val : Nat) :
    Option (Int × PState) :=
  let r := arrInit (.init payload len)
  if r.1 < 0 then some r
  else arrParse fuel r.2 ((descr.elementDescr).getD descr) descr.nElements (val + descr.offset) val

def jsonMixedArrParse (fuel : Nat) (payload : Mem) (len : Nat) (descr : List MixedDescr) (val : Nat) :
    Option (Int × PState) :=
  let r := arrInit (.init payload len)
  if r.1 < 0 then some r else mixedArrParse fuel r.2 descr val

-- On the truncated array [1,2 the EOF token fails arr_next, which ends the loop
-- of mixed_arr_parse with the count of the elements so far.
theorem json_mixed_arr_parse_counts_truncated :
    (jsonMixedArrParse 8 (.ofBytes (bytesOf "[1,2")) 4
      [.mk .number 8 (.primitive 0 4), .mk .number 8 (.primitive 4 4)] 0).map Prod.fst = some 2 := by
  decide +kernel

end Zephyr.Json
