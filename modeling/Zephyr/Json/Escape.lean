import Zephyr.Json.Encode

namespace Zephyr.Json

/-! json_calc_escaped_len, json_escape and json_unescape_string -/

-- What json_escape_internal emits for one byte.
def escapeChar (c : UInt8) : List UInt8 := if escapeAs c ≠ 0 then [byte '\\', escapeAs c] else [c]

-- The escaped text of a string.
def escapedBytes (s : List UInt8) : List UInt8 := s.flatMap escapeChar

-- The string is the buffer from index 0; escape_as reads each of its len bytes.
def jsonCalcEscapedLen (str : Nat → UInt8) (len : Nat) : Nat :=
  (List.range len).foldl (fun escapedLen pos => if escapeAs (str pos) ≠ 0 then escapedLen + 1 else escapedLen) len

-- The loop of json_escape: `next` and `dest` walk back from the ends of the
-- string and of its escaped text, each byte read before its place is written.
def escapeBack : Nat → Nat → (Nat → UInt8) → Nat → UInt8
  | 0, _, m => m
  | next + 1, dest, m =>
    let nextC := m next
    let escape := escapeAs nextC
    if escape ≠ 0 then
      escapeBack next (dest - 2) (Function.update (Function.update m (dest - 1) escape) (dest - 2) (byte '\\'))
    else escapeBack next (dest - 1) (Function.update m (dest - 1) nextC)

-- json_escape: its result, the buffer and *len.
def jsonEscape (str : Nat → UInt8) (len bufSize : Nat) : Int × (Nat → UInt8) × Nat :=
  let escapedLen := jsonCalcEscapedLen str len
  if escapedLen = len then (0, str, len)
  else if escapedLen ≥ bufSize then (-eNoMem, str, len)
  else (0, escapeBack len escapedLen (Function.update str escapedLen 0), escapedLen)

-- Bytes stored one after another from `p`.
def storeBytes (m : Nat → UInt8) (p : Nat) : List UInt8 → Nat → UInt8
  | [] => m
  | b :: bs => storeBytes (Function.update m p b) (p + 1) bs

-- json_unescape_string with its writes, on one byte array that src and dst
-- both point into: the final dst, or none for a backslash at the end.
def unescapeStringLoop (m : Nat → UInt8) (src srcEnd dst dstEnd : Nat) : Option Nat × (Nat → UInt8) :=
  if src < srcEnd ∧ dst < dstEnd then
    if m src = byte '\\' then
      if srcEnd ≤ src + 1 then (none, m)
      else
        let w := unescape (m (src + 1))
        unescapeStringLoop (storeBytes m dst w) (src + 2) srcEnd (dst + w.length) dstEnd
    else unescapeStringLoop (Function.update m dst (m src)) (src + 1) srcEnd (dst + 1) dstEnd
  else (some dst, m)
termination_by srcEnd - src

def jsonUnescapeString (m : Nat → UInt8) (src dst srcLen dstSize : Nat) : Int × (Nat → UInt8) :=
  let r := unescapeStringLoop m src (src + srcLen) dst (dst + dstSize - 1)
  match r.1 with
  | none => (-eInval, r.2)
  | some d => ((d : Int) - dst, Function.update r.2 d 0)

/-! The escaped text -/

@[simp] theorem escapedBytes_nil : escapedBytes [] = [] := rfl

@[simp] theorem escapedBytes_cons (c : UInt8) (s : List UInt8) :
    escapedBytes (c :: s) = escapeChar c ++ escapedBytes s := List.flatMap_cons

@[simp] theorem escapedBytes_append (s t : List UInt8) :
    escapedBytes (s ++ t) = escapedBytes s ++ escapedBytes t := List.flatMap_append

theorem length_escapeChar (c : UInt8) : (escapeChar c).length = if escapeAs c ≠ 0 then 2 else 1 := by
  unfold escapeChar
  split_ifs <;> rfl

-- One byte more for every byte that escape_as escapes.
theorem length_escapedBytes (s : List UInt8) :
    (escapedBytes s).length = s.length + s.countP (fun c => escapeAs c ≠ 0) := by
  induction s with
  | nil => rfl
  | cons c s ih =>
    rw [escapedBytes_cons, List.length_append, ih, length_escapeChar, List.countP_cons, List.length_cons]
    by_cases h : escapeAs c = 0
    · simp only [h, ne_eq, not_true_eq_false, if_false, decide_false, Bool.false_eq_true]
      omega
    · simp only [h, ne_eq, not_false_eq_true, if_true, decide_true]
      omega

theorem length_le_escapedBytes (s : List UInt8) : s.length ≤ (escapedBytes s).length := by
  rw [length_escapedBytes]
  exact Nat.le_add_right _ _

theorem escapedBytes_eq_self_iff (s : List UInt8) : escapedBytes s = s ↔ ∀ c ∈ s, escapeAs c = 0 := by
  constructor
  · intro h
    have hl := congrArg List.length h
    rw [length_escapedBytes, Nat.add_eq_left, List.countP_eq_zero] at hl
    intro c hc
    simpa using hl c hc
  · intro h
    induction s with
    | nil => rfl
    | cons c s ih =>
      rw [escapedBytes_cons, ih fun d hd => h d (List.mem_cons_of_mem c hd)]
      simp [escapeChar, h c List.mem_cons_self]

-- Escaping lengthens a string exactly when it changes it.
theorem length_escapedBytes_eq_iff (s : List UInt8) : (escapedBytes s).length = s.length ↔ escapedBytes s = s := by
  refine ⟨fun hl => (escapedBytes_eq_self_iff s).2 ?_, fun h => by rw [h]⟩
  rw [length_escapedBytes, Nat.add_eq_left, List.countP_eq_zero] at hl
  intro c hc
  simpa using hl c hc

theorem jsonCalcEscapedLen_eq {s : List UInt8} {str : Nat → UInt8} (hstr : ∀ i (h : i < s.length), str i = s[i]) :
    jsonCalcEscapedLen str s.length = (escapedBytes s).length := by
  -- the loop adds the count of escaped bytes among the first n to its start value
  have hloop : ∀ n a, (List.range n).foldl
      (fun escapedLen pos => if escapeAs (str pos) ≠ 0 then escapedLen + 1 else escapedLen) a =
      a + ((List.range n).map str).countP (fun c => escapeAs c ≠ 0) := by
    intro n
    induction n with
    | zero => simp
    | succ n ih =>
      intro a
      rw [List.range_succ, List.foldl_append, ih, List.map_append, List.countP_append]
      simp only [List.foldl_cons, List.foldl_nil, List.map_cons, List.map_nil, List.countP_cons,
        List.countP_nil]
      by_cases h : escapeAs (str n) = 0
      · simp only [h, ne_eq, not_true_eq_false, if_false, decide_false, Bool.false_eq_true]
        omega
      · simp only [h, ne_eq, not_false_eq_true, if_true, decide_true]
        omega
  have hs : (List.range s.length).map str = s := by
    apply List.ext_getElem (by simp)
    intro i h1 h2
    simp only [List.getElem_map, List.getElem_range]
    exact hstr i h2
  rw [jsonCalcEscapedLen, hloop, hs, length_escapedBytes]

-- json_escape_internal with an append_bytes that collects its bytes.
theorem escapeInternal_collect (s acc : List UInt8) (hs : 0 ∉ s) :
    escapeInternal (fun bs out => (0, out ++ bs)) s acc = (0, acc ++ escapedBytes s) := by
  induction s generalizing acc with
  | nil => simp [escapeInternal]
  | cons c s ih =>
    have hc : c ≠ 0 := fun h => hs (h ▸ List.mem_cons_self)
    have hs' : 0 ∉ s := fun h => hs (List.mem_cons_of_mem c h)
    unfold escapeInternal
    rw [if_neg hc]
    split_ifs with he
    · simp only [ite_true, ih _ hs', escapedBytes_cons, escapeChar, if_pos he, List.append_assoc]
    · simp only [ite_true, ih _ hs', escapedBytes_cons, escapeChar, if_neg he, List.append_assoc]

/-! json_escape walks back -/

-- The escaped text splits around the byte at `next`.
theorem escapedBytes_split {s : List UInt8} {next : Nat} (h : next < s.length) :
    escapedBytes s = escapedBytes (s.take next) ++ (escapeChar s[next] ++ escapedBytes (s.drop (next + 1))) := by
  conv_lhs => rw [← List.take_append_drop next s, List.drop_eq_getElem_cons h]
  rw [escapedBytes_append, escapedBytes_cons]

theorem length_escapedBytes_take_succ {s : List UInt8} {next : Nat} (h : next < s.length) :
    (escapedBytes (s.take (next + 1))).length =
      (escapedBytes (s.take next)).length + (escapeChar s[next]).length := by
  rw [List.take_succ_eq_append_getElem h, escapedBytes_append, escapedBytes_cons, escapedBytes_nil,
    List.append_nil, List.length_append]

-- Before each round: the first `next` bytes are still the string's, and from
-- the length of their escaped text on the buffer holds the escaped text of the rest.
structure EscapeInv (s : List UInt8) (m : Nat → UInt8) (next : Nat) : Prop where
  le : next ≤ s.length
  unread : ∀ i (h : i < s.length), i < next → m i = s[i]
  written : ∀ j (h : j < (escapedBytes s).length), (escapedBytes (s.take next)).length ≤ j → m j = (escapedBytes s)[j]

theorem le_length_escapedBytes_take {s : List UInt8} {next : Nat} (h : next ≤ s.length) :
    next ≤ (escapedBytes (s.take next)).length := by
  have := length_le_escapedBytes (s.take next)
  rwa [List.length_take, Nat.min_eq_left h] at this

-- Past the escaped text of the first next bytes comes the escape of s[next].
theorem getElem_escapedBytes_take {s : List UInt8} {next i : Nat} (hn : next < s.length)
    (hi : i < (escapeChar s[next]).length) (hj : (escapedBytes (s.take next)).length + i < (escapedBytes s).length) :
    (escapedBytes s)[(escapedBytes (s.take next)).length + i] = (escapeChar s[next])[i] := by
  have hopt : (escapedBytes s)[(escapedBytes (s.take next)).length + i]? = (escapeChar s[next])[i]? := by
    rw [escapedBytes_split hn, List.getElem?_append_right (by omega), Nat.add_sub_cancel_left,
      List.getElem?_append_left hi]
  rw [List.getElem?_eq_getElem hj, List.getElem?_eq_getElem hi] at hopt
  exact Option.some.inj hopt

-- A round that writes the escape of s[next] just below the escaped text
-- already there, and changes nothing else, keeps the invariant.
theorem EscapeInv.of_round {s : List UInt8} {m m' : Nat → UInt8} {next : Nat} (hn : next < s.length)
    (hinv : EscapeInv s m (next + 1))
    (hesc : ∀ i (hi : i < (escapeChar s[next]).length),
      m' ((escapedBytes (s.take next)).length + i) = (escapeChar s[next])[i])
    (hframe : ∀ j, j < (escapedBytes (s.take next)).length ∨ (escapedBytes (s.take (next + 1))).length ≤ j →
      m' j = m j) :
    EscapeInv s m' next := by
  have hle := le_length_escapedBytes_take (Nat.le_of_lt hn)
  have hlen := length_escapedBytes_take_succ hn
  refine ⟨Nat.le_of_lt hn, fun i hi hlt => ?_, fun j hj hDj => ?_⟩
  · rw [hframe i (.inl (by omega))]
    exact hinv.unread i hi (by omega)
  · by_cases hin : j < (escapedBytes (s.take (next + 1))).length
    · obtain ⟨i, rfl⟩ : ∃ i, j = (escapedBytes (s.take next)).length + i :=
        ⟨j - (escapedBytes (s.take next)).length, by omega⟩
      rw [hesc i (by omega), getElem_escapedBytes_take hn (by omega) hj]
    · rw [hframe j (.inr (by omega))]
      exact hinv.written j hj (by omega)

-- One round reads byte next - 1 and writes its escape just below dest, at or
-- above the bytes still to read.
theorem escapeBack_succ {s : List UInt8} {m : Nat → UInt8} {next : Nat} (hinv : EscapeInv s m (next + 1)) :
    ∃ m', escapeBack (next + 1) (escapedBytes (s.take (next + 1))).length m =
        escapeBack next (escapedBytes (s.take next)).length m' ∧ EscapeInv s m' next ∧
      ∀ j, (escapedBytes (s.take (next + 1))).length ≤ j → m' j = m j := by
  have hn : next < s.length := hinv.le
  have hc : m next = s[next] := hinv.unread next hn (Nat.lt_succ_self next)
  have hlen := length_escapedBytes_take_succ hn
  have hle := le_length_escapedBytes_take (Nat.le_of_lt hn)
  set D := (escapedBytes (s.take next)).length with hD
  by_cases he : escapeAs s[next] = 0
  · -- a byte that is copied as it is
    have h1 : (escapeChar s[next]).length = 1 := by rw [length_escapeChar, if_neg (by simpa using he)]
    have hframe : ∀ j, j < D ∨ D + 1 ≤ j → Function.update m D s[next] j = m j :=
      fun j hj => Function.update_of_ne (by omega) _ _
    refine ⟨Function.update m D s[next], ?_, hinv.of_round hn (fun i hi => ?_) (fun j hj => hframe j (by omega)),
      fun j hj => hframe j (by omega)⟩
    · rw [escapeBack, hlen, h1, hc]
      simp only [he, ne_eq, not_true_eq_false, if_false, Nat.add_sub_cancel]
    · obtain rfl : i = 0 := by omega
      rw [← hD, Nat.add_zero D, Function.update_self]
      simp [escapeChar, he]
  · -- a backslash, then the escape
    have h2 : (escapeChar s[next]).length = 2 := by rw [length_escapeChar, if_pos he]
    have hframe : ∀ j, j < D ∨ D + 2 ≤ j →
        Function.update (Function.update m (D + 1) (escapeAs s[next])) D (byte '\\') j = m j := by
      intro j hj
      rw [Function.update_of_ne (by omega), Function.update_of_ne (by omega)]
    refine ⟨Function.update (Function.update m (D + 1) (escapeAs s[next])) D (byte '\\'), ?_,
      hinv.of_round hn (fun i hi => ?_) (fun j hj => hframe j (by omega)), fun j hj => hframe j (by omega)⟩
    · rw [escapeBack, hlen, h2, hc]
      simp only [he, ne_eq, not_false_eq_true, if_true]
      congr 2
    · rw [← hD]
      rcases (by omega : i = 0 ∨ i = 1) with rfl | rfl
      · rw [Nat.add_zero D, Function.update_self]
        simp [escapeChar, he]
      · rw [Function.update_of_ne (by omega), Function.update_self]
        simp [escapeChar, he]

-- The whole walk: by induction on next, one round at a time.
theorem escapeBack_spec {s : List UInt8} :
    ∀ (next : Nat) (m : Nat → UInt8), EscapeInv s m next →
      (∀ j (h : j < (escapedBytes s).length), escapeBack next (escapedBytes (s.take next)).length m j =
        (escapedBytes s)[j]) ∧
      ∀ j, (escapedBytes s).length ≤ j → escapeBack next (escapedBytes (s.take next)).length m j = m j := by
  intro next
  induction next with
  | zero =>
    intro m hinv
    exact ⟨fun j h => hinv.written j h (by simp), fun j _ => rfl⟩
  | succ n ih =>
    intro m hinv
    obtain ⟨m', heq, hinv', hframe⟩ := escapeBack_succ hinv
    obtain ⟨hw, hf⟩ := ih m' hinv'
    have hle : (escapedBytes (s.take (n + 1))).length ≤ (escapedBytes s).length :=
      calc (escapedBytes (s.take (n + 1))).length
          ≤ (escapedBytes (s.take (n + 1))).length + (escapedBytes (s.drop (n + 1))).length := Nat.le_add_right _ _
        _ = (escapedBytes s).length := by
          rw [← List.length_append, ← escapedBytes_append, List.take_append_drop]
    refine ⟨fun j h => by rw [heq, hw j h], fun j hj => by rw [heq, hf j hj, hframe j (by omega)]⟩

/-! json_escape on a string without NUL at the start of the buffer -/

section JsonEscape

variable {s : List UInt8} {str : Nat → UInt8}

-- The NUL json_escape puts at escaped_len is past every byte of the string.
theorem escapeInv_start (hstr : ∀ i (h : i < s.length), str i = s[i]) :
    EscapeInv s (Function.update str (escapedBytes s).length 0) s.length := by
  have hle := length_le_escapedBytes s
  refine ⟨Nat.le_refl _, fun i hi _ => ?_, fun j hj hj' => ?_⟩
  · rw [Function.update_of_ne (by omega), hstr i hi]
  · rw [List.take_length] at hj'
    omega

theorem jsonEscape_eq (hstr : ∀ i (h : i < s.length), str i = s[i]) (bufSize : Nat) :
    jsonEscape str s.length bufSize =
      if escapedBytes s = s then (0, str, s.length)
      else if bufSize ≤ (escapedBytes s).length then (-eNoMem, str, s.length)
      else (0, escapeBack s.length (escapedBytes s).length (Function.update str (escapedBytes s).length 0),
        (escapedBytes s).length) := by
  simp only [jsonEscape, jsonCalcEscapedLen_eq hstr, length_escapedBytes_eq_iff, ge_iff_le]

-- Where it rewrites, the buffer holds the escaped text and a NUL after it.
theorem jsonEscape_rewrites (hstr : ∀ i (h : i < s.length), str i = s[i]) :
    (∀ j (h : j < (escapedBytes s).length),
      escapeBack s.length (escapedBytes s).length (Function.update str (escapedBytes s).length 0) j =
        (escapedBytes s)[j]) ∧
      escapeBack s.length (escapedBytes s).length (Function.update str (escapedBytes s).length 0)
        (escapedBytes s).length = 0 := by
  obtain ⟨hw, hf⟩ := escapeBack_spec s.length _ (escapeInv_start hstr)
  rw [List.take_length] at hw hf
  exact ⟨hw, by rw [hf _ (Nat.le_refl _), Function.update_self]⟩

end JsonEscape

/-! json_unescape_string inverts the escapes -/

theorem unescape_escapeAs {c : UInt8} (h : escapeAs c ≠ 0) : unescape (escapeAs c) = [c] := by
  unfold escapeAs at h ⊢
  split_ifs at h ⊢ <;> first | (subst_vars; decide) | exact absurd rfl h

theorem ne_backslash_of_escapeAs {c : UInt8} (h : escapeAs c = 0) : c ≠ byte '\\' := by
  rintro rfl
  exact absurd h (by decide)

-- One round on the escaped text of c :: r reads the escape of c and writes c at dst.
theorem unescapeStringLoop_cons {c : UInt8} {r : List UInt8} {m : Nat → UInt8} {a d dstEnd : Nat}
    (hm : ∀ i (h : i < (escapeChar c).length), m (a + i) = (escapeChar c)[i]) (hd : d < dstEnd) :
    unescapeStringLoop m a (a + (escapedBytes (c :: r)).length) d dstEnd =
      unescapeStringLoop (Function.update m d c) (a + (escapeChar c).length)
        (a + (escapeChar c).length + (escapedBytes r).length) (d + 1) dstEnd := by
  have hlen : (escapedBytes (c :: r)).length = (escapeChar c).length + (escapedBytes r).length := by
    rw [escapedBytes_cons, List.length_append]
  have hpos : 0 < (escapeChar c).length := by rw [length_escapeChar]; split_ifs <;> decide
  have h0 := hm 0 hpos
  rw [Nat.add_zero] at h0
  rw [unescapeStringLoop, if_pos ⟨by omega, hd⟩, hlen, ← Nat.add_assoc]
  by_cases he : escapeAs c = 0
  · -- a byte that is copied as it is
    have hc : m a = c := by simpa [escapeChar, he] using h0
    rw [hc, if_neg (ne_backslash_of_escapeAs he)]
    simp [escapeChar, he]
  · -- a backslash and the escape, which unescape turns back into c
    have hb : m a = byte '\\' := by simpa [escapeChar, he] using h0
    have h1 : m (a + 1) = escapeAs c := by
      have := hm 1 (by rw [length_escapeChar, if_pos he]; decide)
      simpa [escapeChar, he] using this
    have hlenC : (escapeChar c).length = 2 := by rw [length_escapeChar, if_pos he]
    rw [hb, if_pos rfl, if_neg (by omega)]
    simp only [h1, unescape_escapeAs he, storeBytes, List.length_cons, List.length_nil, hlenC]

-- The loop over the escaped text of r, by induction on r: each byte of r is
-- written at dst, which stays at or below the next byte to read or past the
-- escaped text.
theorem unescapeStringLoop_escaped : ∀ (r : List UInt8) (m : Nat → UInt8) (a d dstEnd : Nat),
    (∀ i (h : i < (escapedBytes r).length), m (a + i) = (escapedBytes r)[i]) →
    d + r.length ≤ dstEnd → (d ≤ a ∨ a + (escapedBytes r).length ≤ d) →
    (unescapeStringLoop m a (a + (escapedBytes r).length) d dstEnd).1 = some (d + r.length) ∧
      (∀ i (h : i < r.length), (unescapeStringLoop m a (a + (escapedBytes r).length) d dstEnd).2 (d + i) = r[i]) ∧
      ∀ x, x < d → (unescapeStringLoop m a (a + (escapedBytes r).length) d dstEnd).2 x = m x := by
  intro r
  induction r with
  | nil =>
    intro m a d dstEnd _ _ _
    rw [unescapeStringLoop, if_neg (by simp)]
    exact ⟨rfl, fun i h => absurd h (Nat.not_lt_zero i), fun _ _ => rfl⟩
  | cons c r ih =>
    intro m a d dstEnd hm hd hsep
    have hlen : (escapedBytes (c :: r)).length = (escapeChar c).length + (escapedBytes r).length := by
      rw [escapedBytes_cons, List.length_append]
    have hk : (escapeChar c).length ≤ 2 := by rw [length_escapeChar]; split_ifs <;> decide
    have hk1 : 1 ≤ (escapeChar c).length := by rw [length_escapeChar]; split_ifs <;> decide
    simp only [List.length_cons] at hd
    -- the escaped text of c :: r read at a is that of c, then that of r
    have hfirst : ∀ i (h : i < (escapeChar c).length), m (a + i) = (escapeChar c)[i] := by
      intro i h
      rw [hm i (by omega)]
      simp only [escapedBytes_cons]
      exact List.getElem_append_left h
    have hrest : ∀ i (h : i < (escapedBytes r).length),
        Function.update m d c (a + (escapeChar c).length + i) = (escapedBytes r)[i] := by
      intro i h
      rw [Function.update_of_ne (by omega), Nat.add_assoc, hm _ (by omega)]
      simp only [escapedBytes_cons]
      rw [List.getElem_append_right (by omega)]
      simp
    obtain ⟨h1, h2, h3⟩ := ih (Function.update m d c) (a + (escapeChar c).length) (d + 1) dstEnd hrest
      (by omega) (by omega)
    rw [unescapeStringLoop_cons hfirst (by omega)]
    refine ⟨by rw [h1, List.length_cons, Nat.add_assoc, Nat.add_comm 1], fun i h => ?_, fun x hx => ?_⟩
    · cases i with
      | zero =>
        simp only [Nat.add_zero]
        rw [h3 d (Nat.lt_succ_self d), Function.update_self, List.getElem_cons_zero]
      | succ i =>
        rw [show d + (i + 1) = d + 1 + i by omega, h2 i (by simp only [List.length_cons] at h; omega),
          List.getElem_cons_succ]
    · rw [h3 x (by omega), Function.update_of_ne (by omega)]

-- json_unescape_string on the escaped text of s, with room for s and its NUL,
-- writing in place or anywhere that does not overtake the text it reads.
theorem jsonUnescapeString_escaped {s : List UInt8} {m : Nat → UInt8} {src dst dstSize : Nat}
    (hm : ∀ i (h : i < (escapedBytes s).length), m (src + i) = (escapedBytes s)[i]) (hsize : s.length < dstSize)
    (hsep : dst ≤ src ∨ src + (escapedBytes s).length ≤ dst) :
    (jsonUnescapeString m src dst (escapedBytes s).length dstSize).1 = s.length ∧
      (∀ i (h : i < s.length), (jsonUnescapeString m src dst (escapedBytes s).length dstSize).2 (dst + i) = s[i]) ∧
      (jsonUnescapeString m src dst (escapedBytes s).length dstSize).2 (dst + s.length) = 0 := by
  obtain ⟨h1, h2, -⟩ := unescapeStringLoop_escaped s m src dst (dst + dstSize - 1) hm (by omega) hsep
  simp only [jsonUnescapeString, h1]
  refine ⟨by push_cast; omega, fun i h => ?_, Function.update_self ..⟩
  rw [Function.update_of_ne (by omega), h2 i h]

-- json_calc_escaped_len counts what json_escape_internal emits; json_escape
-- fails with -ENOMEM, changing nothing, exactly when escaping is needed and
-- does not fit, and otherwise leaves the escaped text in the buffer; and
-- json_unescape_string gives the string back from that text.
theorem json_escape_paths_agree (s : List UInt8) (hs : 0 ∉ s) (str : Nat → UInt8)
    (hstr : ∀ i (h : i < s.length), str i = s[i]) (bufSize : Nat) :
    jsonCalcEscapedLen str s.length = (escapedBytes s).length ∧
      escapeInternal (fun bs out => (0, out ++ bs)) s [] = (0, escapedBytes s) ∧
      ((jsonEscape str s.length bufSize).1 = -eNoMem ↔ escapedBytes s ≠ s ∧ bufSize ≤ (escapedBytes s).length) ∧
      ((jsonEscape str s.length bufSize).1 = -eNoMem → (jsonEscape str s.length bufSize).2 = (str, s.length)) ∧
      ((jsonEscape str s.length bufSize).1 ≠ -eNoMem →
        (jsonEscape str s.length bufSize).1 = 0 ∧ (jsonEscape str s.length bufSize).2.2 = (escapedBytes s).length ∧
          ∀ j (h : j < (escapedBytes s).length), (jsonEscape str s.length bufSize).2.1 j = (escapedBytes s)[j]) ∧
      ∀ (m : Nat → UInt8) (src dst dstSize : Nat),
        (∀ i (h : i < (escapedBytes s).length), m (src + i) = (escapedBytes s)[i]) → s.length < dstSize →
        (dst ≤ src ∨ src + (escapedBytes s).length ≤ dst) →
        (jsonUnescapeString m src dst (escapedBytes s).length dstSize).1 = s.length ∧
          ∀ i (h : i < s.length), (jsonUnescapeString m src dst (escapedBytes s).length dstSize).2 (dst + i) = s[i] := by
  have hne : (0 : Int) ≠ -eNoMem := by decide
  have hinternal := escapeInternal_collect s [] hs
  rw [List.nil_append] at hinternal
  refine ⟨jsonCalcEscapedLen_eq hstr, hinternal, ?_, ?_, ?_,
    fun m src dst dstSize hm hsize hsep => (jsonUnescapeString_escaped hm hsize hsep).imp_right And.left⟩
  all_goals rw [jsonEscape_eq hstr]
  · by_cases h1 : escapedBytes s = s
    · simp [h1, hne]
    · by_cases h2 : bufSize ≤ (escapedBytes s).length <;> simp [h1, h2, hne]
  · split_ifs <;> simp_all
  · intro hret
    by_cases h1 : escapedBytes s = s
    · -- nothing to escape: the buffer already holds the escaped text
      rw [if_pos h1]
      refine ⟨rfl, by rw [h1], fun j h => ?_⟩
      have hj : j < s.length := by rw [h1] at h; exact h
      simp only
      rw [hstr j hj]
      simp only [h1]
    · rw [if_neg h1] at hret ⊢
      rw [if_neg (by intro h2; rw [if_pos h2] at hret; exact hret rfl)]
      exact ⟨rfl, rfl, (jsonEscape_rewrites hstr).1⟩

-- The string a"b, whose quote is escaped, in a buffer of eight bytes.
theorem json_escape_paths_agree_quote :
    (0 : UInt8) ∉ [97, 34, 98] ∧
      (∀ i (h : i < [(97 : UInt8), 34, 98].length), [(97 : UInt8), 34, 98].getD i 0 = [(97 : UInt8), 34, 98][i]) ∧
      jsonCalcEscapedLen (fun i => [(97 : UInt8), 34, 98].getD i 0) 3 = (escapedBytes [97, 34, 98]).length ∧
      escapeInternal (fun bs out => (0, out ++ bs)) [97, 34, 98] [] = (0, escapedBytes [97, 34, 98]) ∧
      ((jsonEscape (fun i => [(97 : UInt8), 34, 98].getD i 0) 3 8).1 = -eNoMem ↔
        escapedBytes [97, 34, 98] ≠ [97, 34, 98] ∧ 8 ≤ (escapedBytes [97, 34, 98]).length) ∧
      ((jsonEscape (fun i => [(97 : UInt8), 34, 98].getD i 0) 3 8).1 = -eNoMem →
        (jsonEscape (fun i => [(97 : UInt8), 34, 98].getD i 0) 3 8).2 = (fun i => [(97 : UInt8), 34, 98].getD i 0, 3)) ∧
      ((jsonEscape (fun i => [(97 : UInt8), 34, 98].getD i 0) 3 8).1 ≠ -eNoMem →
        (jsonEscape (fun i => [(97 : UInt8), 34, 98].getD i 0) 3 8).1 = 0 ∧
          (jsonEscape (fun i => [(97 : UInt8), 34, 98].getD i 0) 3 8).2.2 = (escapedBytes [97, 34, 98]).length ∧
          ∀ j (h : j < (escapedBytes [97, 34, 98]).length),
            (jsonEscape (fun i => [(97 : UInt8), 34, 98].getD i 0) 3 8).2.1 j = (escapedBytes [97, 34, 98])[j]) ∧
      ∀ (m : Nat → UInt8) (src dst dstSize : Nat),
        (∀ i (h : i < (escapedBytes [97, 34, 98]).length), m (src + i) = (escapedBytes [97, 34, 98])[i]) →
        3 < dstSize → (dst ≤ src ∨ src + (escapedBytes [97, 34, 98]).length ≤ dst) →
        (jsonUnescapeString m src dst (escapedBytes [97, 34, 98]).length dstSize).1 = 3 ∧
          ∀ i (h : i < 3), (jsonUnescapeString m src dst (escapedBytes [97, 34, 98]).length dstSize).2 (dst + i) =
            [(97 : UInt8), 34, 98][i] :=
  have hs : (0 : UInt8) ∉ [97, 34, 98] := by decide
  have hstr : ∀ i (h : i < [(97 : UInt8), 34, 98].length), [(97 : UInt8), 34, 98].getD i 0 = [(97 : UInt8), 34, 98][i] :=
    fun i h => by rw [List.getD_eq_getElem?_getD, List.getElem?_eq_getElem h, Option.getD_some]
  ⟨hs, hstr, json_escape_paths_agree [97, 34, 98] hs _ hstr 8⟩

end Zephyr.Json
