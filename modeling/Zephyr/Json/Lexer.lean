import Mathlib
import Zephyr.Lib.Trace

namespace Zephyr.Json

open Zephyr.Lib

def byte (c : Char) : UInt8 := c.toNat.toUInt8

def bytesOf (s : String) : List UInt8 := s.toList.map byte

-- enum json_tokens: each token is the character the header gives it.
inductive TokKind where
  | none | objectStart | objectEnd | arrayStart | arrayEnd | string | stringBuf | colon | comma
  | number | float | opaqueString | objArray | encodedObj | int64 | uint64 | floatFp | doubleFp
  | int | uint | true | false | mixedArray | null | error | eof
deriving DecidableEq, Repr

def TokKind.code : TokKind → UInt8
  | .none => byte '_' | .objectStart => byte '{' | .objectEnd => byte '}' | .arrayStart => byte '['
  | .arrayEnd => byte ']' | .string => byte '"' | .stringBuf => byte 's' | .colon => byte ':'
  | .comma => byte ',' | .number => byte '0' | .float => byte '1' | .opaqueString => byte '2'
  | .objArray => byte '3' | .encodedObj => byte '4' | .int64 => byte '5' | .uint64 => byte '6'
  | .floatFp => byte '7' | .doubleFp => byte '8' | .int => byte 'i' | .uint => byte 'u'
  | .true => byte 't' | .false => byte 'f' | .mixedArray => byte 'm' | .null => byte 'n'
  | .error => byte '!' | .eof => 0

-- The C library's character classes in the C locale.
def isDigit (c : UInt8) : Bool := 48 ≤ c && c ≤ 57

def isXDigit (c : UInt8) : Bool := isDigit c || (65 ≤ c && c ≤ 70) || (97 ≤ c && c ≤ 102)

def isSpace (c : UInt8) : Bool := c == 32 || (9 ≤ c && c ≤ 13)

inductive Access where
  | read (i : Nat)
  | write (i : Nat)
deriving DecidableEq, Repr

def Access.index : Access → Nat
  | .read i => i
  | .write i => i

-- The payload, with every access made to it, latest first.
structure Mem where
  bytes : Nat → UInt8
  trace : List Access

def Mem.load (m : Mem) (i : Nat) : UInt8 × Mem := (m.bytes i, { m with trace := .read i :: m.trace })

def Mem.store (m : Mem) (i : Nat) (b : UInt8) : Mem := ⟨Function.update m.bytes i b, .write i :: m.trace⟩

-- The state functions of the lexer; `none` in `Lexer.state` is the NULL state.
inductive LexState where
  | json | string | boolean | null | number | numberNan
deriving DecidableEq, Repr

structure Token where
  kind : TokKind
  start : Nat
  stop : Nat
deriving DecidableEq, Repr

-- struct json_lexer, with offsets from the start of the payload for its pointers.
structure Lexer where
  state : Option LexState
  start : Nat
  pos : Nat
  stop : Nat
  tok : Token
deriving DecidableEq, Repr

-- What a state function leaves: the next state, the lexer and the memory.
abbrev Step := Option LexState × Lexer × Mem

def lexerInit (len : Nat) : Lexer := ⟨some .json, 0, 0, len, ⟨.none, 0, 0⟩⟩

def next (lex : Lexer) (m : Mem) : UInt8 × Lexer × Mem :=
  if lex.stop ≤ lex.pos then (0, { lex with pos := lex.stop + 1 }, m)
  else
    let r := m.load lex.pos
    (r.1, { lex with pos := lex.pos + 1 }, r.2)

def ignore (lex : Lexer) : Lexer := { lex with start := lex.pos }

def backup (lex : Lexer) : Lexer := { lex with pos := lex.pos - 1 }

def emit (lex : Lexer) (token : TokKind) : Lexer :=
  { lex with tok := ⟨token, lex.start, lex.pos⟩, start := lex.pos }

def peek (lex : Lexer) (m : Mem) : UInt8 × Lexer × Mem :=
  let r := next lex m
  (r.1, backup r.2.1, r.2.2)

theorem next_stop (lex : Lexer) (m : Mem) : (next lex m).2.1.stop = lex.stop := by
  unfold next; split <;> rfl

-- A character other than NUL comes from inside the payload, one position on.
theorem next_of_ne_zero {lex : Lexer} {m : Mem} (h : (next lex m).1 ≠ 0) :
    lex.pos < lex.stop ∧ (next lex m).2.1.pos = lex.pos + 1 := by
  unfold next at h ⊢
  split
  · simp_all
  · exact ⟨by omega, rfl⟩

def isEscape (c : UInt8) : Bool :=
  c == byte '"' || c == byte '\\' || c == byte '/' || c == byte 'b' || c == byte 'f' ||
    c == byte 'n' || c == byte 'r' || c == byte 't'

-- The four hex digits of a \u escape; false at the first character that is not one.
def acceptXDigits : Nat → Lexer → Mem → Bool × Lexer × Mem
  | 0, lex, m => (true, lex, m)
  | n + 1, lex, m =>
    let r := next lex m
    if isXDigit r.1 then acceptXDigits n r.2.1 r.2.2 else (false, r.2.1, r.2.2)

theorem isXDigit_ne_zero {c : UInt8} (h : isXDigit c = true) : c ≠ 0 := by
  rintro rfl; revert h; decide

theorem acceptXDigits_pos (n : Nat) (lex : Lexer) (m : Mem) (h : (acceptXDigits n lex m).1 = true) :
    (acceptXDigits n lex m).2.1.stop = lex.stop ∧ (acceptXDigits n lex m).2.1.pos = lex.pos + n := by
  induction n generalizing lex m with
  | zero => exact ⟨rfl, rfl⟩
  | succ n ih =>
    unfold acceptXDigits at h ⊢
    by_cases hx : isXDigit (next lex m).1 = true
    · simp only [hx, if_true] at h ⊢
      obtain ⟨h1, h2⟩ := ih _ _ h
      have hn := next_of_ne_zero (isXDigit_ne_zero hx)
      rw [h1, h2, next_stop, hn.2]
      omega
    · simp [hx] at h

theorem isEscape_ne_zero {c : UInt8} (h : isEscape c = true) : c ≠ 0 := by
  rintro rfl; revert h; decide

-- The loop of lexer_string, after its ignore.
set_option linter.unusedVariables false in
def lexerStringLoop (lex : Lexer) (m : Mem) : Step :=
  let r := next lex m
  if h0 : r.1 = 0 then (none, emit r.2.1 .error, r.2.2)
  else if r.1 = byte '\\' then
    let e := next r.2.1 r.2.2
    if he : isEscape e.1 then lexerStringLoop e.2.1 e.2.2
    else if hu : e.1 = byte 'u' then
      let x := acceptXDigits 4 e.2.1 e.2.2
      if hx : x.1 then lexerStringLoop x.2.1 x.2.2 else (none, emit x.2.1 .error, x.2.2)
    else (none, emit e.2.1 .error, e.2.2)
  else if r.1 = byte '"' then
    let n := next (emit (backup r.2.1) .string) r.2.2
    (some .json, ignore n.2.1, n.2.2)
  else lexerStringLoop r.2.1 r.2.2
termination_by lex.stop + 1 - lex.pos
decreasing_by
  · have h1 : lex.pos < lex.stop ∧ (next lex m).2.1.pos = lex.pos + 1 := next_of_ne_zero h0
    have h2 : (next lex m).2.1.pos < (next lex m).2.1.stop ∧
        (next (next lex m).2.1 (next lex m).2.2).2.1.pos = (next lex m).2.1.pos + 1 :=
      next_of_ne_zero (isEscape_ne_zero he)
    rw [next_stop, next_stop]
    omega
  · have h1 : lex.pos < lex.stop ∧ r.2.1.pos = lex.pos + 1 := next_of_ne_zero h0
    have h2 : r.2.1.pos < r.2.1.stop ∧ e.2.1.pos = r.2.1.pos + 1 :=
      next_of_ne_zero (show e.1 ≠ 0 by rw [hu]; decide)
    have h5 : e.2.1.stop = r.2.1.stop := next_stop _ _
    have h6 : r.2.1.stop = lex.stop := next_stop _ _
    obtain ⟨h3, h4⟩ := acceptXDigits_pos 4 _ _ hx
    rw [h3, h4]
    omega
  · have h1 : lex.pos < lex.stop ∧ (next lex m).2.1.pos = lex.pos + 1 := next_of_ne_zero h0
    rw [next_stop]
    omega

-- accept_run: the characters of `run` must follow; false at the first that does not.
def acceptRun : List UInt8 → Lexer → Mem → Bool × Lexer × Mem
  | [], lex, m => (true, lex, m)
  | c :: run, lex, m =>
    let r := next lex m
    if r.1 = c then acceptRun run r.2.1 r.2.2 else (false, r.2.1, r.2.2)

def lexerBoolean (lex : Lexer) (m : Mem) : Step :=
  let r := next (backup lex) m
  if r.1 = byte 't' then
    let a := acceptRun (bytesOf "rue") r.2.1 r.2.2
    if a.1 then (some .json, emit a.2.1 .true, a.2.2) else (none, emit a.2.1 .error, a.2.2)
  else if r.1 = byte 'f' then
    let a := acceptRun (bytesOf "alse") r.2.1 r.2.2
    if a.1 then (some .json, emit a.2.1 .false, a.2.2) else (none, emit a.2.1 .error, a.2.2)
  else (none, emit r.2.1 .error, r.2.2)

def lexerNull (lex : Lexer) (m : Mem) : Step :=
  let a := acceptRun (bytesOf "ull") lex m
  if a.1 then (some .json, emit a.2.1 .null, a.2.2) else (none, emit a.2.1 .error, a.2.2)

def isNumberChar (c : UInt8) : Bool :=
  isDigit c || c == byte '.' || c == byte 'e' || c == byte '+' || c == byte '-'

theorem isNumberChar_ne_zero {c : UInt8} (h : isNumberChar c = true) : c ≠ 0 := by
  rintro rfl; revert h; decide

set_option linter.unusedVariables false in
def lexerNumber (lex : Lexer) (m : Mem) : Step :=
  let r := next lex m
  if h : isNumberChar r.1 then lexerNumber r.2.1 r.2.2
  else (some .json, emit (backup r.2.1) .number, r.2.2)
termination_by lex.stop + 1 - lex.pos
decreasing_by
  have h1 : lex.pos < lex.stop ∧ (next lex m).2.1.pos = lex.pos + 1 :=
    next_of_ne_zero (isNumberChar_ne_zero h)
  rw [next_stop]
  omega

-- CONFIG_JSON_LIBRARY_FP_SUPPORT is off by default: NaN and Infinity are errors.
def lexerNumberNan (lex : Lexer) (m : Mem) : Step := (none, emit lex .error, m)

-- The single-character tokens.
def punctuation (c : UInt8) : Option TokKind :=
  if c = byte '}' then some .objectEnd
  else if c = byte '{' then some .objectStart
  else if c = byte '[' then some .arrayStart
  else if c = byte ']' then some .arrayEnd
  else if c = byte ',' then some .comma
  else if c = byte ':' then some .colon
  else none

set_option linter.unusedVariables false in
def lexerJson (lex : Lexer) (m : Mem) : Step :=
  let r := next lex m
  if h0 : r.1 = 0 then (none, emit r.2.1 .eof, r.2.2)
  else match punctuation r.1 with
  | some k => (some .json, emit r.2.1 k, r.2.2)
  | none =>
    if r.1 = byte '"' then (some .string, r.2.1, r.2.2)
    else if r.1 = byte 'n' then (some .null, r.2.1, r.2.2)
    else if r.1 = byte 't' ∨ r.1 = byte 'f' then (some .boolean, r.2.1, r.2.2)
    else if r.1 = byte 'N' ∨ r.1 = byte 'I' then (some .numberNan, r.2.1, r.2.2)
    else if r.1 = byte '-' then
      let a := peek r.2.1 r.2.2
      if isDigit a.1 then (some .number, a.2.1, a.2.2)
      else
        let b := peek a.2.1 a.2.2
        if b.1 = byte 'I' then (some .numberNan, b.2.1, b.2.2)
        -- falls through to the default case, where '-' is neither a space nor a digit
        else (none, emit b.2.1 .error, b.2.2)
    else if isSpace r.1 then lexerJson (ignore r.2.1) r.2.2
    else if isDigit r.1 then (some .number, r.2.1, r.2.2)
    else (none, emit r.2.1 .error, r.2.2)
termination_by lex.stop + 1 - lex.pos
decreasing_by
  have h1 : lex.pos < lex.stop ∧ (next lex m).2.1.pos = lex.pos + 1 := next_of_ne_zero h0
  simp only [ignore]
  rw [next_stop]
  omega

def LexState.run : LexState → Lexer → Mem → Step
  | .json => lexerJson
  | .string => fun lex m => lexerStringLoop (ignore lex) m
  | .boolean => lexerBoolean
  | .null => lexerNull
  | .number => lexerNumber
  | .numberNan => lexerNumberNan

def lexerConsume (lex : Lexer) (emptyToken : TokKind) : Option Token × Lexer :=
  if lex.tok.kind = emptyToken then (none, lex)
  else (some lex.tok, { lex with tok := { lex.tok with kind := emptyToken } })

@[simp] theorem emit_kind (lex : Lexer) (k : TokKind) : (emit lex k).tok.kind = k := rfl

@[simp] theorem next_tok (lex : Lexer) (m : Mem) : (next lex m).2.1.tok = lex.tok := by
  unfold next; split <;> rfl

@[simp] theorem backup_tok (lex : Lexer) : (backup lex).tok = lex.tok := rfl

@[simp] theorem ignore_tok (lex : Lexer) : (ignore lex).tok = lex.tok := rfl

@[simp] theorem peek_tok (lex : Lexer) (m : Mem) : (peek lex m).2.1.tok = lex.tok := by
  simp [peek]

@[simp] theorem punctuation_ne_none (c : UInt8) : punctuation c ≠ some .none := by
  unfold punctuation
  split_ifs <;> simp

-- Every state but json ends in a token.
theorem lexerStringLoop_emits (lex : Lexer) (m : Mem) : (lexerStringLoop lex m).2.1.tok.kind ≠ .none := by
  fun_induction lexerStringLoop lex m <;> simp_all +zetaDelta

theorem lexerNumber_emits (lex : Lexer) (m : Mem) : (lexerNumber lex m).2.1.tok.kind ≠ .none := by
  fun_induction lexerNumber lex m <;> simp_all

theorem lexerBoolean_emits (lex : Lexer) (m : Mem) : (lexerBoolean lex m).2.1.tok.kind ≠ .none := by
  unfold lexerBoolean
  dsimp only
  split_ifs <;> simp

theorem lexerNull_emits (lex : Lexer) (m : Mem) : (lexerNull lex m).2.1.tok.kind ≠ .none := by
  unfold lexerNull
  dsimp only
  split_ifs <;> simp

-- The json state either ends in a token or hands over to another state.
theorem lexerJson_hands_over (lex : Lexer) (m : Mem) (h : (lexerJson lex m).2.1.tok.kind = .none) :
    (lexerJson lex m).1 ≠ some .json := by
  fun_induction lexerJson lex m <;> simp_all

-- How far lexer_next is from a token: with none pending, the json state may
-- take two state calls and any other state one.
def Lexer.pending (lex : Lexer) : Nat :=
  if lex.tok.kind ≠ .none then 0 else if lex.state = some .json then 2 else 1

theorem LexState.run_pending (s : LexState) (lex : Lexer) (m : Mem) (hs : lex.state = some s)
    (ht : lex.tok.kind = .none) :
    ({ (s.run lex m).2.1 with state := (s.run lex m).1 } : Lexer).pending < lex.pending := by
  unfold Lexer.pending
  cases s with
  | json =>
    have h := lexerJson_hands_over lex m
    by_cases hk : (lexerJson lex m).2.1.tok.kind = .none <;> simp_all [LexState.run]
  | string => simp [LexState.run, lexerStringLoop_emits, ht, hs]
  | boolean => simp [LexState.run, lexerBoolean_emits, ht, hs]
  | null => simp [LexState.run, lexerNull_emits, ht, hs]
  | number => simp [LexState.run, lexerNumber_emits, ht, hs]
  | numberNan => simp [LexState.run, lexerNumberNan, ht, hs]

theorem lexerConsume_of_none {lex lex' : Lexer} {k : TokKind} (h : lexerConsume lex k = (none, lex')) :
    lex' = lex ∧ lex.tok.kind = k := by
  unfold lexerConsume at h
  split_ifs at h with hk
  · simp_all
  · simp at h

-- lexer_next: run state functions until a token is pending, then hand it out.
set_option linter.unusedVariables false in
def lexerNext (lex : Lexer) (m : Mem) : Option Token × Lexer × Mem :=
  match hs : lex.state with
  | none =>
    let c := lexerConsume lex .eof
    (c.1, c.2, m)
  | some s =>
    match hc : lexerConsume lex .none with
    | (some t, lex') => (some t, lex', m)
    | (none, lex') =>
      let r := s.run lex' m
      lexerNext { r.2.1 with state := r.1 } r.2.2
termination_by lex.pending
decreasing_by
  obtain ⟨rfl, ht⟩ := lexerConsume_of_none hc
  exact LexState.run_pending s lex' m hs ht

-- m' is m after reads at indices that p admits, and nothing else.
def Mem.Reads (p : Nat → Prop) (m m' : Mem) : Prop :=
  m'.bytes = m.bytes ∧ Grows (fun a => ∃ i, p i ∧ a = .read i) m.trace m'.trace

theorem Mem.Reads.refl (p : Nat → Prop) (m : Mem) : m.Reads p m := ⟨rfl, .refl _ _⟩

theorem Mem.Reads.trans {p : Nat → Prop} {m m' m'' : Mem} (h : m.Reads p m') (h' : m'.Reads p m'') :
    m.Reads p m'' :=
  ⟨h'.1.trans h.1, h.2.trans h'.2⟩

theorem Mem.Reads.load {p : Nat → Prop} (m : Mem) {i : Nat} (hi : p i) : m.Reads p (m.load i).2 :=
  ⟨rfl, .cons ⟨i, hi, rfl⟩⟩

-- A step of the lexer keeps the end of the input and only reads the payload below it.
def Within (lex : Lexer) (m : Mem) (lex' : Lexer) (m' : Mem) : Prop :=
  lex'.stop = lex.stop ∧ m.Reads (· < lex.stop) m'

theorem Within.refl (lex : Lexer) (m : Mem) : Within lex m lex m := ⟨rfl, .refl _ m⟩

theorem Within.trans {lex lex' lex'' : Lexer} {m m' m'' : Mem} (h : Within lex m lex' m')
    (h' : Within lex' m' lex'' m'') : Within lex m lex'' m'' := by
  obtain ⟨hs, hr⟩ := h
  obtain ⟨hs', hr'⟩ := h'
  rw [hs] at hr'
  exact ⟨hs'.trans hs, hr.trans hr'⟩

-- The steps that only move the lexer's own positions.
theorem Within.lexer {lex lex' : Lexer} {m m' : Mem} (h : Within lex m lex' m') {lex'' : Lexer}
    (hs : lex''.stop = lex'.stop) : Within lex m lex'' m' :=
  h.trans ⟨hs, .refl _ m'⟩

theorem next_within (lex : Lexer) (m : Mem) : Within lex m (next lex m).2.1 (next lex m).2.2 := by
  unfold next
  split
  · exact (Within.refl lex m).lexer (by rfl)
  · exact ⟨rfl, .load m (by omega)⟩

theorem peek_within (lex : Lexer) (m : Mem) : Within lex m (peek lex m).2.1 (peek lex m).2.2 :=
  (next_within lex m).lexer (by rfl)

theorem acceptXDigits_within (n : Nat) (lex : Lexer) (m : Mem) :
    Within lex m (acceptXDigits n lex m).2.1 (acceptXDigits n lex m).2.2 := by
  induction n generalizing lex m with
  | zero => exact .refl lex m
  | succ n ih =>
    unfold acceptXDigits
    dsimp only
    split
    · exact (next_within lex m).trans (ih _ _)
    · exact next_within lex m

theorem acceptRun_within (run : List UInt8) (lex : Lexer) (m : Mem) :
    Within lex m (acceptRun run lex m).2.1 (acceptRun run lex m).2.2 := by
  induction run generalizing lex m with
  | nil => exact .refl lex m
  | cons c run ih =>
    unfold acceptRun
    dsimp only
    split
    · exact (next_within lex m).trans (ih _ _)
    · exact next_within lex m

theorem lexerStringLoop_within (lex : Lexer) (m : Mem) :
    Within lex m (lexerStringLoop lex m).2.1 (lexerStringLoop lex m).2.2 := by
  fun_induction lexerStringLoop lex m with
  | case1 lex m r h0 => exact (next_within lex m).lexer (by rfl)
  | case2 lex m r h0 hbs e he ih => exact ((next_within lex m).trans (next_within _ _)).trans ih
  | case3 lex m r h0 hbs e he hu x hx ih =>
    exact (((next_within lex m).trans (next_within _ _)).trans (acceptXDigits_within 4 _ _)).trans ih
  | case4 lex m r h0 hbs e he hu x hx =>
    exact (((next_within lex m).trans (next_within _ _)).trans (acceptXDigits_within 4 _ _)).lexer (by rfl)
  | case5 lex m r h0 hbs e he hu => exact ((next_within lex m).trans (next_within _ _)).lexer (by rfl)
  | case6 lex m r h0 hbs hq n => exact (((next_within lex m).lexer (by rfl)).trans (next_within _ _)).lexer (by rfl)
  | case7 lex m r h0 hbs hq ih => exact (next_within lex m).trans ih

theorem lexerBoolean_within (lex : Lexer) (m : Mem) :
    Within lex m (lexerBoolean lex m).2.1 (lexerBoolean lex m).2.2 := by
  have hb : Within lex m (next (backup lex) m).2.1 (next (backup lex) m).2.2 :=
    ((Within.refl lex m).lexer (by rfl)).trans (next_within _ _)
  unfold lexerBoolean
  dsimp only
  split_ifs
  all_goals first
    | exact (hb.trans (acceptRun_within _ _ _)).lexer (by rfl)
    | exact hb.lexer (by rfl)

theorem lexerNull_within (lex : Lexer) (m : Mem) :
    Within lex m (lexerNull lex m).2.1 (lexerNull lex m).2.2 := by
  unfold lexerNull
  dsimp only
  split_ifs <;> exact (acceptRun_within _ lex m).lexer (by rfl)

theorem lexerNumber_within (lex : Lexer) (m : Mem) :
    Within lex m (lexerNumber lex m).2.1 (lexerNumber lex m).2.2 := by
  fun_induction lexerNumber lex m with
  | case1 lex m r h ih => exact (next_within lex m).trans ih
  | case2 lex m r h => exact (next_within lex m).lexer (by rfl)

theorem lexerJson_within (lex : Lexer) (m : Mem) :
    Within lex m (lexerJson lex m).2.1 (lexerJson lex m).2.2 := by
  fun_induction lexerJson lex m with
  | case7 lex m r _ _ _ _ _ _ _ a _ => exact (next_within lex m).trans (peek_within _ _)
  | case8 lex m r _ _ _ _ _ _ _ a _ b _ =>
    exact ((next_within lex m).trans (peek_within _ _)).trans (peek_within _ _)
  | case9 lex m r _ _ _ _ _ _ _ a _ b _ =>
    exact (((next_within lex m).trans (peek_within _ _)).trans (peek_within _ _)).lexer (by rfl)
  | case10 lex m r _ _ _ _ _ _ _ _ ih => exact ((next_within lex m).lexer (by rfl)).trans ih
  | _ => exact (next_within _ _).lexer (by rfl)

theorem LexState.run_within (s : LexState) (lex : Lexer) (m : Mem) :
    Within lex m (s.run lex m).2.1 (s.run lex m).2.2 := by
  cases s with
  | json => exact lexerJson_within lex m
  | string => exact ((Within.refl lex m).lexer (by rfl)).trans (lexerStringLoop_within _ m)
  | boolean => exact lexerBoolean_within lex m
  | null => exact lexerNull_within lex m
  | number => exact lexerNumber_within lex m
  | numberNan => exact (Within.refl lex m).lexer (by rfl)

theorem lexerConsume_stop (lex : Lexer) (k : TokKind) : (lexerConsume lex k).2.stop = lex.stop := by
  unfold lexerConsume
  split <;> rfl

-- A whole call of lexer_next, by induction along its loop over the state functions.
theorem lexerNext_within (lex : Lexer) (m : Mem) :
    Within lex m (lexerNext lex m).2.1 (lexerNext lex m).2.2 := by
  fun_induction lexerNext lex m with
  | case1 lex m hs => exact (Within.refl lex m).lexer (lexerConsume_stop lex .eof)
  | case2 lex m s hs t lex' hc =>
    exact (Within.refl lex m).lexer (by rw [← lexerConsume_stop lex .none, hc])
  | case3 lex m s hs lex' hc r ih =>
    have hc' : Within lex m lex' m := (Within.refl lex m).lexer (by rw [← lexerConsume_stop lex .none, hc])
    exact ((hc'.trans (s.run_within lex' m)).lexer (by rfl)).trans ih

-- lexer_next writes nothing and reads the payload only below its end.
theorem lexerNext_reads_below_end (lex : Lexer) (m : Mem) :
    (lexerNext lex m).2.1.stop = lex.stop ∧ (lexerNext lex m).2.2.bytes = m.bytes ∧
      ∀ a ∈ (lexerNext lex m).2.2.trace, a ∈ m.trace ∨ ∃ i < lex.stop, a = .read i := by
  obtain ⟨hs, hb, hg⟩ := lexerNext_within lex m
  exact ⟨hs, hb, fun a ha => hg.mem ha⟩

end Zephyr.Json
