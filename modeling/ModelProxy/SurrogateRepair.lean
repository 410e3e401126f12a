import Mathlib.Data.List.TakeDrop
import ModelProxy.CommandOutput

/-! # Escapes of lone surrogates

JSON lets a string escape one half of a surrogate pair, which no Rust string can hold.  A frame is
repaired in one scan over its bytes, with a cursor and the place up to which it has been copied.
-/

namespace ModelProxy.SurrogateRepair
open CommandOutput (isHighSurrogate isLowSurrogate)
open List

/-- A quotation mark. -/
abbrev quote : UInt8 := 34
/-- The byte of a backslash. -/
abbrev backslash : UInt8 := 92

/-- The value of a hexadecimal digit. -/
def hexDigit (b : UInt8) : Option ℕ :=
  if 48 ≤ b ∧ b ≤ 57 then some (b.toNat - 48)
  else if 97 ≤ b ∧ b ≤ 102 then some (b.toNat - 87)
  else if 65 ≤ b ∧ b ≤ 70 then some (b.toNat - 55)
  else none

/-- Four digits at the cursor.  Bytes that are no UTF-8 are no digits. -/
def hexUnit : List UInt8 → Option ℕ
  | a :: b :: c :: d :: _ => do
    some ((((← hexDigit a) * 16 + (← hexDigit b)) * 16 + (← hexDigit c)) * 16 + (← hexDigit d))
  | _ => none

/-- Half of a surrogate pair. -/
def isSurrogate (unit : ℕ) : Bool := 0xD800 ≤ unit ∧ unit ≤ 0xDFFF

/-- A backslash, the letter `u` and a unit. -/
def escapedUnit (left : List UInt8) : Option ℕ :=
  if left.take 2 = [backslash, 117] then hexUnit (left.drop 2) else none

/-- The escape of U+FFFD. -/
def replacement : List UInt8 := [92, 117, 102, 102, 102, 100]

/-- A round of the loop over what the cursor has left: how far it moves, whether it is in a string
then, and whether what it passes is replaced. -/
def look (inString : Bool) (left : List UInt8) : ℕ × Bool × Bool :=
  let byte := left.headD 0
  if !inString then (1, byte = quote, false)
  else if byte = quote then (1, false, false)
  else if byte ≠ backslash then (1, true, false)
  else
    match escapedUnit left with
    | none => (2, true, false)
    | some unit =>
      if isHighSurrogate unit && (escapedUnit (left.drop 6)).any isLowSurrogate then
        (12, true, false)
      else (6, true, isSurrogate unit)

/-- Where the scan stands. -/
structure Scan where
  repaired : List UInt8 := []
  copied : ℕ := 0
  inString : Bool := false
  pos : ℕ := 0

namespace Scan

/-- One turn of the scan. -/
def step (bytes : List UInt8) (s : Scan) : Scan :=
  let (n, inString, replaced) := look s.inString (bytes.drop s.pos)
  let pos := s.pos + n
  if replaced then
    let repaired := s.repaired ++ (bytes.take s.pos).drop s.copied ++ replacement
    { repaired, copied := pos, inString, pos }
  else { s with inString, pos }

theorem pos_lt_step (bytes : List UInt8) (s : Scan) : s.pos < (s.step bytes).pos := by
  have hr (b : Bool) (left : List UInt8) : 0 < (look b left).1 := by
    unfold look
    grind
  unfold step
  grind

/-- The scan to the end. -/
def loop (bytes : List UInt8) (s : Scan) : Scan :=
  if s.pos < bytes.length then loop bytes (s.step bytes) else s
termination_by bytes.length - s.pos
decreasing_by have := pos_lt_step bytes s; omega

end Scan

/-- The repaired bytes, or none where nothing was repaired. -/
def replaceLoneSurrogateEscapes (bytes : List UInt8) : Option (List UInt8) :=
  let s := Scan.loop bytes {}
  if s.copied = 0 then none else some (s.repaired ++ bytes.drop s.copied)

/-! ## Strings of a text -/

/-- A part of a string: a byte, an escape of one character, an escape of a unit. -/
inductive Part where
  | plain (byte : UInt8) (h : byte ≠ quote ∧ byte ≠ backslash)
  | escape (byte : UInt8) (h : byte ≠ 117)
  | unit (digits : List UInt8) (value : ℕ) (h : digits.length = 4 ∧ hexUnit digits = some value)

/-- A part as it is written. -/
def Part.bytes : Part → List UInt8
  | plain byte _ => [byte]
  | escape byte _ => [backslash, byte]
  | unit digits _ _ => backslash :: 117 :: digits

/-- What stands for a lone half. -/
def Part.replaced : Part := .unit [102, 102, 102, 100] 0xFFFD ⟨rfl, rfl⟩

/-- A text, cut at its strings. -/
inductive Token where
  | bare (byte : UInt8) (h : byte ≠ quote)
  | string (parts : List Part)

/-- A token as it is written. -/
def Token.bytes : Token → List UInt8
  | bare byte _ => [byte]
  | string parts => quote :: (parts.flatMap Part.bytes ++ [quote])

/-- Which parts are escapes of surrogates that stay alone: a pair is a high one and the low one
right behind it, from left to right. -/
def lone : List Part → List Bool
  | .unit _ value _ :: .unit digits next h :: parts =>
    if isHighSurrogate value && isLowSurrogate next then false :: false :: lone parts
    else isSurrogate value :: lone (.unit digits next h :: parts)
  | .unit _ value _ :: parts => isSurrogate value :: lone parts
  | _ :: parts => false :: lone parts
  | [] => []

/-- The parts with those that are marked replaced. -/
def mend : List Part → List Bool → List Part :=
  zipWith fun part mark => if mark then .replaced else part

/-- The token with its lone halves replaced. -/
def Token.mend : Token → Token
  | string parts => .string (SurrogateRepair.mend parts (lone parts))
  | token => token

/-- The token has no lone half. -/
def Token.Paired : Token → Prop
  | string parts => true ∉ lone parts
  | _ => True

/-! ## JSON texts -/

/-- The byte is a hexadecimal digit of this value, in either case. -/
def HexDigit (b : UInt8) (v : ℕ) : Prop :=
  v < 16 ∧ (b.toNat = (Nat.digitChar v).toNat ∨ b.toNat = (Nat.digitChar v).toUpper.toNat)

/-- One decimal digit or more. -/
def Digits (ds : List UInt8) : Prop := ds ≠ [] ∧ ∀ d ∈ ds, 48 ≤ d ∧ d ≤ 57

/-- White space between tokens. -/
def Space (bs : List UInt8) : Prop := ∀ b ∈ bs, b ∈ [32, 9, 10, 13]

/-- The numbers of RFC 8259. -/
structure Number (minus whole frac exp : List UInt8) : Prop where
  sign : minus = [] ∨ minus = [45]
  digits : Digits whole
  lead : whole.head? = some 48 → whole = [48]
  fraction : frac = [] ∨ ∃ ds, Digits ds ∧ frac = 46 :: ds
  exponent : exp = [] ∨ ∃ e sign ds, (e = 69 ∨ e = 101) ∧ (sign = [] ∨ sign = [43] ∨ sign = [45]) ∧
    Digits ds ∧ exp = e :: (sign ++ ds)

/-- What a derivation is of: the inside of a string, a value, a value between white space, or the
inside of an array or object that is not empty. -/
inductive Symbol
  | chars | value | text | elements | members

/-- The grammar of RFC 8259 over the bytes of a text. -/
inductive Json : Symbol → List UInt8 → Prop
  | done : Json .chars []
  | plain {b : UInt8} {cs : List UInt8} (hb : 32 ≤ b ∧ b ≠ quote ∧ b ≠ backslash)
      (h : Json .chars cs) : Json .chars (b :: cs)
  | escape {b : UInt8} {cs : List UInt8} (hb : b ∈ [34, 92, 47, 98, 102, 110, 114, 116])
      (h : Json .chars cs) : Json .chars (backslash :: b :: cs)
  | unit {a b c d : UInt8} {vs : List ℕ} {cs : List UInt8} (hd : Forall₂ HexDigit [a, b, c, d] vs)
      (h : Json .chars cs) : Json .chars (backslash :: 117 :: a :: b :: c :: d :: cs)
  | literal {bs : List UInt8} (h : bs = [110, 117, 108, 108] ∨ bs = [116, 114, 117, 101] ∨
      bs = [102, 97, 108, 115, 101]) : Json .value bs
  | number {minus whole frac exp : List UInt8} (h : Number minus whole frac exp) :
      Json .value (minus ++ whole ++ frac ++ exp)
  | string {cs : List UInt8} (h : Json .chars cs) : Json .value (quote :: (cs ++ [quote]))
  | emptyArray {bs : List UInt8} (h : Space bs) : Json .value (91 :: (bs ++ [93]))
  | array {bs : List UInt8} (h : Json .elements bs) : Json .value (91 :: (bs ++ [93]))
  | emptyObject {bs : List UInt8} (h : Space bs) : Json .value (123 :: (bs ++ [125]))
  | object {bs : List UInt8} (h : Json .members bs) : Json .value (123 :: (bs ++ [125]))
  | text {v pre post : List UInt8} (hp : Space pre) (h : Json .value v) (hq : Space post) :
      Json .text (pre ++ (v ++ post))
  | element {bs : List UInt8} (h : Json .text bs) : Json .elements bs
  | elements {xs ys : List UInt8} (hx : Json .elements xs) (hy : Json .elements ys) :
      Json .elements (xs ++ 44 :: ys)
  | member {cs v pre mid : List UInt8} (hp : Space pre) (hc : Json .chars cs) (hm : Space mid)
      (hv : Json .text v) : Json .members (pre ++ (quote :: (cs ++ [quote]) ++ (mid ++ 58 :: v)))
  | members {xs ys : List UInt8} (hx : Json .members xs) (hy : Json .members ys) :
      Json .members (xs ++ 44 :: ys)

theorem hexDigit_lt {b : UInt8} {v : ℕ} (h : hexDigit b = some v) : v < 16 := by
  simp only [hexDigit, UInt8.le_iff_toNat_le] at h
  grind

theorem hexDigit_iff {b : UInt8} {v : ℕ} : hexDigit b = some v ↔ HexDigit b v := by
  have h : ∀ n < 256, ∀ v < 16, hexDigit (.ofNat n) = some v ↔
      n = (Nat.digitChar v).toNat ∨ n = (Nat.digitChar v).toUpper.toNat := by decide +kernel
  have hb := h b.toNat b.toNat_lt v
  rw [UInt8.ofNat_toNat] at hb
  exact ⟨fun hd => ⟨hexDigit_lt hd, (hb (hexDigit_lt hd)).mp hd⟩, fun hd => (hb hd.1).mpr hd.2⟩

theorem hexUnit_digits {a b c d : UInt8} {vs : List ℕ} (h : Forall₂ HexDigit [a, b, c, d] vs) :
    hexUnit [a, b, c, d] = some (vs.foldl (· * 16 + ·) 0) := by
  match vs, h with
  | [_, _, _, _], .cons ha (.cons hb (.cons hc (.cons hd .nil))) =>
    rw [← hexDigit_iff] at ha hb hc hd
    simp [hexUnit, ha, hb, hc, hd]

theorem isSurrogate_eq (unit : ℕ) :
    isSurrogate unit = (isHighSurrogate unit || isLowSurrogate unit) := by
  grind [isSurrogate, isHighSurrogate, isLowSurrogate]

/-- The bytes are parts of a string, or a text cut at its strings. -/
def Cut : Symbol → List UInt8 → Prop
  | .chars, bs => ∃ parts : List Part, parts.flatMap Part.bytes = bs
  | _, bs => ∃ tokens : List Token, tokens.flatMap Token.bytes = bs

theorem cut_append {xs ys : List UInt8} (hx : Cut .text xs) (hy : Cut .text ys) :
    Cut .text (xs ++ ys) := by
  obtain ⟨ts, rfl⟩ := hx
  obtain ⟨us, rfl⟩ := hy
  exact ⟨ts ++ us, flatMap_append⟩

theorem cut_bare {bs : List UInt8} (h : quote ∉ bs) : Cut .text bs := by
  induction bs with
  | nil => exact ⟨[], rfl⟩
  | cons b bs ih =>
    obtain ⟨ts, hts⟩ := ih fun hm => h (mem_cons_of_mem b hm)
    exact ⟨.bare b (fun hb => h (hb ▸ mem_cons_self)) :: ts, by rw [flatMap_cons, hts]; rfl⟩

theorem cut_string {cs : List UInt8} (h : Cut .chars cs) :
    Cut .text (quote :: (cs ++ [quote])) := by
  obtain ⟨parts, rfl⟩ := h
  exact ⟨[.string parts], flatMap_singleton ..⟩

theorem cut_space {bs : List UInt8} (h : Space bs) : Cut .text bs :=
  cut_bare fun hq => absurd (h _ hq) (by decide)

theorem Digits.quote_not_mem {ds : List UInt8} (h : Digits ds) : quote ∉ ds :=
  fun hq => absurd (h.2 _ hq).1 (by decide)

theorem Number.cut {minus whole frac exp : List UInt8} (h : Number minus whole frac exp) :
    Cut .text (minus ++ whole ++ frac ++ exp) := by
  obtain ⟨hm, hw, -, hf, he⟩ := h
  have hw := hw.quote_not_mem
  have hm : quote ∉ minus := by rcases hm with rfl | rfl <;> decide
  have hf : quote ∉ frac := by
    rcases hf with rfl | ⟨ds, hd, rfl⟩
    · exact not_mem_nil
    · simpa [quote] using hd.quote_not_mem
  have he : quote ∉ exp := by
    rcases he with rfl | ⟨e, sign, ds, he, hs, hd, rfl⟩
    · exact not_mem_nil
    · have hd := hd.quote_not_mem
      rcases he with rfl | rfl <;> rcases hs with rfl | rfl | rfl <;> simpa [quote] using hd
  exact cut_bare (by simp [hm, hw, hf, he])

/-- A text between two bytes that are no quotes. -/
theorem cut_between {bs : List UInt8} {l r : UInt8} (h : Cut .text bs) (hl : quote ≠ l)
    (hr : quote ≠ r) : Cut .text (l :: (bs ++ [r])) :=
  @cut_append [l] _ (cut_bare (by simpa using hl)) (cut_append h (cut_bare (by simpa using hr)))

theorem cut_around {xs ys : List UInt8} {b : UInt8} (hx : Cut .text xs) (hy : Cut .text ys)
    (hb : quote ≠ b) : Cut .text (xs ++ b :: ys) :=
  cut_append hx (@cut_append [b] _ (cut_bare (by simpa using hb)) hy)

/-- Every JSON text is one cut at its strings. -/
theorem Json.cut {symbol : Symbol} {bs : List UInt8} (h : Json symbol bs) : Cut symbol bs := by
  induction h with
  | done => exact ⟨[], rfl⟩
  | plain hb _ ih =>
    obtain ⟨parts, rfl⟩ := ih
    exact ⟨.plain _ hb.2 :: parts, rfl⟩
  | @escape b _ hb _ ih =>
    obtain ⟨parts, rfl⟩ := ih
    exact ⟨.escape b (by rintro rfl; simp at hb) :: parts, rfl⟩
  | unit hd _ ih =>
    obtain ⟨parts, rfl⟩ := ih
    exact ⟨.unit _ _ ⟨rfl, hexUnit_digits hd⟩ :: parts, rfl⟩
  | literal h => rcases h with rfl | rfl | rfl <;> exact cut_bare (by decide)
  | number h => exact h.cut
  | string _ ih => exact cut_string ih
  | emptyArray h | emptyObject h => exact cut_between (cut_space h) (by decide) (by decide)
  | array _ ih | object _ ih => exact cut_between ih (by decide) (by decide)
  | text hp _ hq ih => exact cut_append (cut_space hp) (cut_append ih (cut_space hq))
  | element _ ih => exact ih
  | elements _ _ hx hy | members _ _ hx hy => exact cut_around hx hy (by decide)
  | member hp _ hm _ hc hv =>
    exact cut_append (cut_space hp)
      (cut_append (cut_string hc) (cut_around (cut_space hm) hv (by decide)))

/-! ## The scan -/

/-- What the scan has written up to its cursor, and what it has left. -/
structure Scan.At (bytes done left : List UInt8) (s : Scan) (clean : Prop) : Prop where
  left : bytes.drop s.pos = left
  done : s.repaired ++ (bytes.take s.pos).drop s.copied = done
  le : s.copied ≤ s.pos
  inside : s.pos ≤ bytes.length
  clean : s.copied = 0 ↔ clean

variable {bytes done left x ds : List UInt8} {s : Scan} {clean : Prop} {b c : Bool}
  {part : Part} {parts : List Part} {v : ℕ} {hv : ds.length = 4 ∧ hexUnit ds = some v}

/-- The step: a round that passes `x`. -/
theorem Scan.At.step (h : s.At bytes done (x ++ left) clean)
    (hr : look s.inString (x ++ left) = (x.length, b, c)) (hx : x ≠ []) :
    ∃ t : Scan, s.loop bytes = t.loop bytes ∧ t.inString = b ∧
      t.At bytes (done ++ if c then replacement else x) left (clean ∧ c = false) := by
  have hl : bytes.length - s.pos = x.length + left.length := by
    rw [← length_drop, h.left, length_append]
  have hp : 0 < x.length := length_pos_of_ne_nil hx
  have hle := h.le
  have hi := h.inside
  refine ⟨s.step bytes, by rw [loop, if_pos (by omega)], ?_⟩
  have hd : bytes.drop (s.pos + x.length) = left := by rw [← drop_drop, h.left, drop_left]
  cases c with
  | true =>
    simp only [Scan.step, h.left, hr, if_true]
    refine ⟨trivial, hd, ?_, Nat.le_refl _, by grind, by simp [hx]⟩
    rw [drop_of_length_le (length_take_le ..), append_nil, h.done]
  | false =>
    simp only [Scan.step, h.left, hr, Bool.false_eq_true, if_false]
    refine ⟨trivial, hd, ?_, by grind, by grind, by simpa using h.clean⟩
    rw [take_add, h.left, take_left, drop_append_of_le_length (by grind), ← append_assoc, h.done]

theorem escapedUnit_unit : escapedUnit ((Part.unit ds v hv).bytes ++ left) = some v := by
  match ds, hv with
  | [_, _, _, _], hv => exact hv.2

theorem escapedUnit_other (h : ∀ ds v hv, part = .unit ds v hv → False) :
    escapedUnit (part.bytes ++ left) = none := by
  cases part with
  | unit ds v hv => exact (h _ _ _ rfl).elim
  | plain byte hb => simp [escapedUnit, Part.bytes, hb.2]
  | escape byte hb => simp [escapedUnit, Part.bytes, hb]

theorem look_unit : look true ((Part.unit ds v hv).bytes ++ left) =
    if isHighSurrogate v && (escapedUnit left).any isLowSurrogate then (12, true, false)
    else ((Part.unit ds v hv).bytes.length, true, isSurrogate v) := by
  have hd : ((Part.unit ds v hv).bytes ++ left).drop 6 = left := by simp [Part.bytes, hv.1]
  have hh : ((Part.unit ds v hv).bytes ++ left).headD 0 = backslash := rfl
  simp only [look, escapedUnit_unit, hd, hh]
  simp [Part.bytes, hv.1, show backslash ≠ quote by decide]

/-- From inside a string the scan goes on behind its end, and has written `parts` with those that
are marked replaced. -/
def Scans (bytes left : List UInt8) (parts : List Part) (marks : List Bool) : Prop :=
  ∀ {s : Scan} {done clean},
    s.At bytes done (parts.flatMap Part.bytes ++ quote :: left) clean → s.inString = true →
    ∃ t : Scan, s.loop bytes = t.loop bytes ∧ t.inString = false ∧
      t.At bytes (done ++ ((mend parts marks).flatMap Part.bytes ++ [quote])) left
        (clean ∧ true ∉ marks)

theorem Scans.cons {marks : List Bool} (h : Scans bytes left parts marks)
    (hr : look true (part.bytes ++ (parts.flatMap Part.bytes ++ quote :: left)) =
      (part.bytes.length, true, b)) : Scans bytes left (part :: parts) (b :: marks) := by
  intro s done clean ha hs
  have hx : part.bytes ≠ [] := by cases part <;> simp [Part.bytes]
  have hp : Part.replaced.bytes = replacement := rfl
  rw [flatMap_cons, append_assoc] at ha
  rw [← hs] at hr
  obtain ⟨t, ht, hb, ha⟩ := ha.step hr hx
  obtain ⟨u, hu, hb, ha⟩ := h ha (hb.trans hs)
  refine ⟨u, ht.trans hu, hb, ?_⟩
  cases b <;> simpa [mend, hp] using ha

/-- A scan of a string marks its lone surrogates. -/
theorem scans_lone : Scans bytes left parts (lone parts) := by
  fun_induction lone parts with
  | case1 ds v hv ds' v' hv' parts hp ih =>
    -- a pair is passed in one round of twelve bytes
    intro s done clean h hs
    simp only [flatMap_cons, append_assoc] at h
    rw [← append_assoc] at h
    obtain ⟨t, ht, hb, ha⟩ := h.step (b := true) (c := false) (by
      rw [hs, append_assoc, look_unit, escapedUnit_unit, Option.any_some, if_pos hp]
      simp [Part.bytes, hv.1, hv'.1]) (by simp [Part.bytes])
    obtain ⟨u, hu, hb, ha⟩ := ih ha hb
    exact ⟨u, ht.trans hu, hb, by simpa [mend] using ha⟩
  | case2 ds v hv ds' v' hv' parts hp ih =>
    refine ih.cons ?_
    rw [look_unit, flatMap_cons, append_assoc, escapedUnit_unit, Option.any_some, if_neg hp]
  | case3 ds v hv parts hn ih =>
    refine ih.cons ?_
    have he : escapedUnit (parts.flatMap Part.bytes ++ quote :: left) = none := by
      cases parts with
      | nil => rfl
      | cons part parts =>
        rw [flatMap_cons, append_assoc]
        exact escapedUnit_other fun ds v hv hp => hn ds v hv parts (by rw [hp])
    rw [look_unit, he]
    simp
  | case4 part parts _ hn ih =>
    refine ih.cons ?_
    cases part with
    | plain byte hb => simp [Part.bytes, look, hb.1, hb.2]
    | escape byte hb =>
      simp only [look, escapedUnit_other hn]
      simp [Part.bytes, show backslash ≠ quote by decide]
    | unit ds v hv => exact (hn _ _ _ rfl).elim
  | case5 =>
    intro s done clean h hs
    obtain ⟨t, ht, hb, ha⟩ := h.step (x := [quote]) (by rw [hs]; rfl) (by simp)
    exact ⟨t, ht, hb, by simpa [mend] using ha⟩

/-- The run: from outside a string the scan writes the mended text, and has copied nothing exactly
when every surrogate is paired. -/
theorem loop_tokens {tokens : List Token}
    (h : s.At bytes done (tokens.flatMap Token.bytes) clean) (hs : s.inString = false) :
    (s.loop bytes).repaired ++ bytes.drop (s.loop bytes).copied =
      done ++ (tokens.map Token.mend).flatMap Token.bytes ∧
    ((s.loop bytes).copied = 0 ↔ clean ∧ ∀ token ∈ tokens, token.Paired) := by
  induction tokens generalizing s done clean with
  | nil =>
    have hl := drop_eq_nil_iff.mp h.left
    have hd := h.done
    rw [take_of_length_le hl] at hd
    rw [Scan.loop, if_neg (by omega)]
    simpa [hd] using h.clean
  | cons token tokens ih =>
    rw [flatMap_cons] at h
    cases token with
    | bare byte hb =>
      obtain ⟨t, ht, hs, ha⟩ := h.step (b := false) (c := false) (by
        rw [hs]
        simp [look, Token.bytes, hb]) (by simp [Token.bytes])
      rw [ht]
      simpa [Token.mend, Token.Paired] using ih ha hs
    | string parts =>
      rw [Token.bytes, cons_append, ← singleton_append] at h
      obtain ⟨t, ht, hs, ha⟩ := h.step (b := true) (c := false) (by rw [hs]; rfl) (by simp)
      rw [append_assoc] at ha
      obtain ⟨u, hu, hs, ha⟩ := scans_lone ha hs
      rw [ht, hu]
      simpa [Token.mend, Token.Paired, Token.bytes, and_assoc] using ih ha hs

/-! ## What is mended is paired -/

theorem lone_cons (h : isHighSurrogate v = false) :
    lone (.unit ds v hv :: parts) = isSurrogate v :: lone parts := by
  cases parts with
  | nil => rfl
  | cons part parts => cases part <;> simp [lone, h]

theorem lone_mend_cons {marks : List Bool} (h : true ∉ lone (mend parts marks)) :
    true ∉ lone (mend (.unit ds v hv :: parts) (isSurrogate v :: marks)) := by
  cases hs : isSurrogate v with
  | true =>
    show true ∉ lone (.unit _ 0xFFFD _ :: mend parts marks)
    rw [lone_cons rfl]
    simpa [isSurrogate] using h
  | false =>
    have hh := (Bool.or_eq_false_iff.mp ((isSurrogate_eq v).symm.trans hs)).1
    show true ∉ lone (.unit ds v hv :: mend parts marks)
    rw [lone_cons hh, hs]
    simpa using h

theorem not_mem_lone_mend : true ∉ lone (mend parts (lone parts)) := by
  fun_induction lone parts with
  | case1 ds v hv ds' v' hv' parts hp ih => simpa [mend, lone, hp] using ih
  | case2 ds v hv ds' v' hv' parts hp ih => exact lone_mend_cons ih
  | case3 ds v hv parts hn ih => exact lone_mend_cons ih
  | case4 part parts _ hn ih =>
    cases part with
    | unit ds v hv => exact (hn _ _ _ rfl).elim
    | _ => simpa [mend, lone] using ih
  | case5 => exact not_mem_nil

/-- **The repair is exact** on every text that can be cut at its strings, as JSON can: it gives
nothing exactly when every surrogate is paired, and else the text with the escapes that stay alone
replaced, in which every surrogate is paired. -/
theorem replaceLoneSurrogateEscapes_exact :
    (∀ bytes, Json .text bytes → ∃ tokens : List Token, tokens.flatMap Token.bytes = bytes) ∧
    ∀ tokens : List Token,
      (replaceLoneSurrogateEscapes (tokens.flatMap Token.bytes) = none ↔
        ∀ token ∈ tokens, token.Paired) ∧
      ((∃ token ∈ tokens, ¬token.Paired) →
        replaceLoneSurrogateEscapes (tokens.flatMap Token.bytes) =
          some ((tokens.map Token.mend).flatMap Token.bytes)) ∧
      ∀ token ∈ tokens.map Token.mend, token.Paired := by
  refine ⟨fun bytes h => h.cut, fun tokens => ?_⟩
  have h0 : Scan.At (tokens.flatMap Token.bytes) [] (tokens.flatMap Token.bytes) {} True :=
    ⟨rfl, rfl, Nat.le_refl _, Nat.zero_le _, by simp⟩
  obtain ⟨ht, hc⟩ := loop_tokens h0 rfl
  rw [true_and] at hc
  unfold replaceLoneSurrogateEscapes
  refine ⟨?_, ?_, ?_⟩
  · rw [← hc]
    simp
  · rintro ⟨token, hm, hn⟩
    rw [if_neg fun h0 => hn (hc.mp h0 token hm), ht]
    rfl
  · intro token hm
    obtain ⟨token, -, rfl⟩ := mem_map.mp hm
    cases token with
    | bare => trivial
    | string parts => exact not_mem_lone_mend

end ModelProxy.SurrogateRepair
