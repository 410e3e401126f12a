import Mathlib.Data.Nat.Init
import Mathlib.Order.Basic
import ModelProxy.Transducer

/-! # UTF-8

The encoding of a character, and the decoder of the Encoding Standard, one byte at a time:
`none` stands for an error (a replacement character, or a refusal where the decoder is
fatal).  A byte that cannot continue a character is an error and starts afresh.
-/
namespace ModelProxy.Utf8
open List Transducer

/-- The bytes of a character. -/
def encodeChar (c : Char) : List UInt8 :=
  let v := c.toNat
  if v < 0x80 then [UInt8.ofNat v]
  else if v < 0x800 then [UInt8.ofNat (0xC0 + v / 64), UInt8.ofNat (0x80 + v % 64)]
  else if v < 0x10000 then
    [UInt8.ofNat (0xE0 + v / 4096), UInt8.ofNat (0x80 + v / 64 % 64), UInt8.ofNat (0x80 + v % 64)]
  else
    [UInt8.ofNat (0xF0 + v / 262144), UInt8.ofNat (0x80 + v / 4096 % 64),
      UInt8.ofNat (0x80 + v / 64 % 64), UInt8.ofNat (0x80 + v % 64)]

theorem encodeChar_ne_nil (c : Char) : encodeChar c ≠ [] := by
  unfold encodeChar
  dsimp only
  split_ifs <;> simp

/-- The bytes of a text. -/
def encode (text : List Char) : List UInt8 := text.flatMap encodeChar

@[simp] theorem encode_nil : encode [] = [] := rfl

theorem encode_cons (c : Char) (text : List Char) :
    encode (c :: text) = encodeChar c ++ encode text := rfl

@[simp] theorem encode_append (text text' : List Char) :
    encode (text ++ text') = encode text ++ encode text' := flatMap_append

/-- How many bytes a text takes. -/
def byteLength (text : List Char) : ℕ := (encode text).length

variable {text : List Char} {v needed lower upper : ℕ}

@[simp] theorem byteLength_nil : byteLength [] = 0 := rfl

@[simp] theorem byteLength_append (text text' : List Char) :
    byteLength (text ++ text') = byteLength text + byteLength text' := by
  simp [byteLength]

theorem byteLength_pos (h : text ≠ []) : 0 < byteLength text := by
  obtain ⟨c, rest, rfl⟩ := exists_cons_of_ne_nil h
  have hp := length_pos_iff.mpr (encodeChar_ne_nil c)
  rw [byteLength, encode_cons, length_append]
  omega

/-! ## The decoder -/

/-- Where the decoder stands between bytes. -/
structure Decoder where
  codePoint : ℕ
  seen : ℕ
  needed : ℕ
  lower : ℕ
  upper : ℕ
deriving DecidableEq, Repr

/-- On a character boundary. -/
def Decoder.idle : Decoder := ⟨0, 0, 0, 0x80, 0xBF⟩

/-- After a lead byte that announces `needed` more bytes. -/
def Decoder.after (needed bits lower upper : ℕ) : Decoder := ⟨bits, 0, needed, lower, upper⟩

/-- A byte on a character boundary. -/
def lead (b : ℕ) : Decoder × List (Option ℕ) :=
  if b < 0x80 then (.idle, [some b])
  else if 0xC2 ≤ b ∧ b ≤ 0xDF then (.after 1 (b % 32) 0x80 0xBF, [])
  else if 0xE0 ≤ b ∧ b ≤ 0xEF then
    (.after 2 (b % 16) (if b = 0xE0 then 0xA0 else 0x80) (if b = 0xED then 0x9F else 0xBF), [])
  else if 0xF0 ≤ b ∧ b ≤ 0xF4 then
    (.after 3 (b % 8) (if b = 0xF0 then 0x90 else 0x80) (if b = 0xF4 then 0x8F else 0xBF), [])
  else (.idle, [none])

/-- One byte. -/
def step : Transducer Decoder UInt8 (Option ℕ) := fun d byte =>
  let b := byte.toNat
  if d.needed = 0 then lead b
  else if b < d.lower ∨ d.upper < b then ((lead b).1, none :: (lead b).2)
  else
    let codePoint := d.codePoint * 64 + b % 64
    if d.seen + 1 = d.needed then (.idle, [some codePoint])
    else (⟨codePoint, d.seen + 1, d.needed, 0x80, 0xBF⟩, [])

/-- The end of the stream: a character cut short is an error. -/
def finish (d : Decoder) : List (Option ℕ) := if d.needed = 0 then [] else [none]

/-- Everything a stream decodes to. -/
def decode (bytes : List UInt8) : List (Option ℕ) :=
  (Transducer.run step .idle bytes).2 ++ finish (Transducer.run step .idle bytes).1

/-! ## What is decoded is a character -/

/-- A character beyond ASCII. -/
def Beyond (v : ℕ) : Prop := 0x80 ≤ v ∧ v.isValidChar

/-- Every way to go on from here for `left` more bytes ends in a character beyond ASCII. -/
def Leads : ℕ → ℕ → ℕ → ℕ → Prop
  | 0, codePoint, _, _ => Beyond codePoint
  | left + 1, codePoint, lower, upper =>
    ∀ b, lower ≤ b → b ≤ upper → Leads left (codePoint * 64 + b % 64) 0x80 0xBF

/-- The decoder is on a boundary, or inside a character it can complete. -/
structure Sound (d : Decoder) : Prop where
  boundary : d.needed = 0 → d = .idle
  inside : d.needed ≠ 0 → d.seen < d.needed ∧ Leads (d.needed - d.seen) d.codePoint d.lower d.upper

theorem sound_idle : Sound .idle := ⟨fun _ => rfl, fun h => absurd rfl h⟩

theorem beyond_iff : Beyond v ↔ 0x80 ≤ v ∧ (v < 0xD800 ∨ 0xDFFF < v ∧ v < 0x110000) :=
  Iff.rfl

theorem sound_after {bits : ℕ} (hn : needed ≠ 0) (h : Leads needed bits lower upper) :
    Sound (.after needed bits lower upper) :=
  ⟨fun h0 => absurd h0 hn, fun _ => ⟨Nat.pos_of_ne_zero hn, h⟩⟩

/-- What an item may be: an error, or a character. -/
def Scalar (item : Option ℕ) : Prop := ∀ v ∈ item, v.isValidChar

theorem lead_sound (b : ℕ) : Sound (lead b).1 ∧ ∀ item ∈ (lead b).2, Scalar item := by
  unfold lead
  split
  · refine ⟨sound_idle, ?_⟩
    simp only [mem_singleton, forall_eq, Scalar, Option.mem_some_iff, forall_eq']
    exact .inl (by omega)
  split
  · refine ⟨sound_after (by omega) fun b1 _ _ => ?_, by simp⟩
    rw [Leads, beyond_iff]
    omega
  split
  · refine ⟨sound_after (by omega) fun b1 h1 h1' b2 _ _ => ?_, by simp⟩
    rw [Leads, beyond_iff]
    split at h1 <;> split at h1' <;> omega
  split
  · refine ⟨sound_after (by omega) fun b1 h1 h1' b2 _ _ b3 _ _ => ?_, by simp⟩
    rw [Leads, beyond_iff]
    split at h1 <;> split at h1' <;> omega
  · exact ⟨sound_idle, by simp [Scalar]⟩

variable {d : Decoder} {bs : List UInt8}

/-- The decoder yields scalar values only. -/
theorem step_sound (hd : Sound d) (b : UInt8) :
    Sound (step d b).1 ∧ ∀ item ∈ (step d b).2, Scalar item := by
  unfold step
  dsimp only
  split
  · exact lead_sound _
  next hn =>
  obtain ⟨hse, hl⟩ := hd.inside hn
  split
  · refine ⟨(lead_sound _).1, ?_⟩
    simp only [mem_cons, forall_eq_or_imp]
    exact ⟨by simp [Scalar], (lead_sound _).2⟩
  next hin =>
  rw [not_or] at hin
  obtain ⟨left, hlf⟩ : ∃ left, d.needed - d.seen = left + 1 :=
    ⟨d.needed - d.seen - 1, by omega⟩
  rw [hlf] at hl
  have hnx := hl _ (Nat.le_of_not_lt hin.1) (Nat.le_of_not_lt hin.2)
  split
  next hla =>
    obtain rfl : left = 0 := by omega
    exact ⟨sound_idle, by simpa [Scalar] using hnx.2⟩
  next hmo =>
  refine ⟨⟨fun h => absurd h hn, fun _ => ⟨?_, ?_⟩⟩, by simp⟩
  · show d.seen + 1 < d.needed
    omega
  · show Leads (d.needed - (d.seen + 1)) _ _ _
    rw [show d.needed - (d.seen + 1) = left by omega]
    exact hnx

/-- **A decoder writes only characters and errors.** -/
theorem decode_scalar (bs : List UInt8) : ∀ item ∈ decode bs, Scalar item := by
  intro item hi
  rcases mem_append.mp hi with h | h
  · exact (run_inv Sound Scalar (fun _ b h => step_sound h b) sound_idle bs).2 item h
  · unfold finish at h
    split at h
    · cases h
    · rw [mem_singleton.mp h]
      simp [Scalar]

/-- No ASCII byte goes on with a character. -/
theorem step_lower (d : Decoder) (byte : UInt8) :
    0x80 ≤ (step d byte).1.lower := by
  have hld (b : ℕ) : 0x80 ≤ (lead b).1.lower := by
    unfold lead
    split_ifs <;> simp only [Decoder.idle, Decoder.after] <;> omega
  unfold step
  dsimp only
  split
  · exact hld _
  split
  · exact hld _
  · split <;> exact Nat.le_refl _

/-- An ASCII character is read from its own byte. -/
theorem step_ascii (hd : Sound d) {byte : UInt8} (h : some v ∈ (step d byte).2) (hv : v < 0x80) :
    byte.toNat = v := by
  have hld {b : ℕ} (h : some v ∈ (lead b).2) : b = v := by
    unfold lead at h
    split at h
    · exact (Option.some.inj (mem_singleton.mp h)).symm
    · split_ifs at h <;> simp at h
  unfold step at h
  dsimp only at h
  split at h
  · exact hld h
  next hn =>
  obtain ⟨hse, hl⟩ := hd.inside hn
  split at h
  · rcases mem_cons.mp h with h | h
    · cases h
    · exact hld h
  next hin =>
  split at h
  next hla =>
    rw [show d.needed - d.seen = 0 + 1 by omega] at hl
    have hb := hl _ (Nat.le_of_not_lt (not_or.mp hin).1)
      (Nat.le_of_not_lt (not_or.mp hin).2)
    rw [← Option.some.inj (mem_singleton.mp h)] at hb
    have hge := hb.1
    omega
  · cases h

/-! ## Decoding what was encoded -/

theorem isValidChar_toNat (c : Char) : c.toNat.isValidChar := c.valid

section Continue
variable {codePoint seen needed lower upper n : ℕ} {d : Decoder} {bs : List UInt8}

theorem run_lead (h : n < 256) (hld : lead n = (d, [])) :
    run step .idle (UInt8.ofNat n :: bs) = run step d bs := by
  have hsp : step .idle (UInt8.ofNat n) = (d, []) := by
    rw [← hld]
    simp [step, UInt8.toNat_ofNat_of_lt' h, Decoder.idle]
  rw [run_cons, hsp]
  rfl

/-- A byte that continues a character. -/
theorem step_within (hn : needed ≠ 0) (hin : lower ≤ n ∧ n ≤ upper) (h : n < 256) :
    step ⟨codePoint, seen, needed, lower, upper⟩ (UInt8.ofNat n) =
      if seen + 1 = needed then (.idle, [some (codePoint * 64 + n % 64)])
      else (⟨codePoint * 64 + n % 64, seen + 1, needed, 0x80, 0xBF⟩, []) := by
  have ho : ¬ (n < lower ∨ upper < n) := by omega
  simp only [step, UInt8.toNat_ofNat_of_lt' h, hn, ho, if_false]

theorem run_more (hmo : seen + 1 < needed) (hin : lower ≤ n ∧ n ≤ upper) (h : n < 256) :
    run step ⟨codePoint, seen, needed, lower, upper⟩ (UInt8.ofNat n :: bs) =
      run step ⟨codePoint * 64 + n % 64, seen + 1, needed, 0x80, 0xBF⟩ bs := by
  rw [run_cons, step_within (by omega) hin h, if_neg (by omega)]
  rfl

theorem run_last (hla : seen + 1 = needed) (hin : lower ≤ n ∧ n ≤ upper) (h : n < 256) :
    run step ⟨codePoint, seen, needed, lower, upper⟩ [UInt8.ofNat n] =
      (.idle, [some (codePoint * 64 + n % 64)]) := by
  rw [run_cons, step_within (by omega) hin h, if_pos hla]
  rfl

end Continue

/-- **A character's bytes decode to it.** -/
theorem run_encodeChar (c : Char) :
    run step .idle (encodeChar c) = (.idle, [some c.toNat]) := by
  have hvd := isValidChar_toNat c
  unfold encodeChar
  generalize c.toNat = v at hvd
  dsimp only
  split
  next h =>
    have hsp : step .idle (UInt8.ofNat v) = (.idle, [some v]) := by
      simp [step, UInt8.toNat_ofNat_of_lt' (show v < 256 by omega), Decoder.idle, lead, h]
    rw [run_cons, hsp]
    rfl
  split
  next h0 h =>
    have hld : lead (0xC0 + v / 64) = (.after 1 (v / 64) 0x80 0xBF, []) := by
      unfold lead
      rw [if_neg (by omega), if_pos (by omega), show (0xC0 + v / 64) % 32 = v / 64 by omega]
    rw [run_lead (by omega) hld, Decoder.after, run_last rfl (by omega) (by omega)]
    congr 3
    omega
  split
  next h1 h0 h =>
    have hld : lead (0xE0 + v / 4096) = (.after 2 (v / 4096)
        (if 0xE0 + v / 4096 = 0xE0 then 0xA0 else 0x80)
        (if 0xE0 + v / 4096 = 0xED then 0x9F else 0xBF), []) := by
      unfold lead
      rw [if_neg (by omega), if_neg (by omega), if_pos (by omega),
        show (0xE0 + v / 4096) % 16 = v / 4096 by omega]
    rw [run_lead (by omega) hld, Decoder.after,
      run_more (by omega) ⟨by split <;> omega, by split <;> omega⟩ (by omega),
      run_last rfl (by omega) (by omega)]
    congr 3
    omega
  next h1 h0 h =>
  have hld : lead (0xF0 + v / 262144) = (.after 3 (v / 262144)
      (if 0xF0 + v / 262144 = 0xF0 then 0x90 else 0x80)
      (if 0xF0 + v / 262144 = 0xF4 then 0x8F else 0xBF), []) := by
    unfold lead
    rw [if_neg (by omega), if_neg (by omega), if_neg (by omega), if_pos (by omega),
      show (0xF0 + v / 262144) % 8 = v / 262144 by omega]
  rw [run_lead (by omega) hld, Decoder.after,
    run_more (by omega) ⟨by split <;> omega, by split <;> omega⟩ (by omega),
    run_more (by omega) (by omega) (by omega), run_last rfl (by omega) (by omega)]
  congr 3
  omega

/-- **A text's bytes decode to it.** -/
theorem run_encode (text : List Char) :
    run step .idle (encode text) = (.idle, text.map fun c => some c.toNat) := by
  induction text with
  | nil => rfl
  | cons c text ih => rw [encode_cons, run_append, run_encodeChar, ih]; rfl

/-! ## What decodes was encoded -/

/-- The bytes go on to decode without an error and end on a character boundary. -/
structure Clean (d : Decoder) (bytes : List UInt8) : Prop where
  noError : none ∉ (Transducer.run step d bytes).2
  boundary : (Transducer.run step d bytes).1.needed = 0

theorem Clean.tail {b : UInt8} (h : Clean d (b :: bs)) :
    none ∉ (step d b).2 ∧ Clean (step d b).1 bs := by
  obtain ⟨hno, he⟩ := h
  rw [run_cons] at hno he
  rw [mem_append, not_or] at hno
  exact ⟨hno.1, hno.2, he⟩

/-- Inside a character, the next byte continues it. -/
theorem Clean.within {codePoint seen : ℕ} (hn : needed ≠ 0)
    (h : Clean ⟨codePoint, seen, needed, lower, upper⟩ bs) :
    ∃ n rest, bs = UInt8.ofNat n :: rest ∧ n < 256 ∧ lower ≤ n ∧ n ≤ upper ∧
      Clean (if seen + 1 = needed then .idle
        else ⟨codePoint * 64 + n % 64, seen + 1, needed, 0x80, 0xBF⟩) rest := by
  cases bs with
  | nil => exact absurd h.boundary hn
  | cons b rest =>
    obtain ⟨hno, hr⟩ := h.tail
    have hb : b = UInt8.ofNat b.toNat := UInt8.ofNat_toNat.symm
    by_cases ho : b.toNat < lower ∨ upper < b.toNat
    · simp [step, hn, ho] at hno
    have hin : lower ≤ b.toNat ∧ b.toNat ≤ upper := by omega
    rw [hb, step_within hn hin b.toNat_lt] at hr
    refine ⟨b.toNat, rest, by rw [← hb], b.toNat_lt, hin.1, hin.2, ?_⟩
    split at hr
    next hla => rw [if_pos hla]; exact hr
    next hla => rw [if_neg hla]; exact hr

theorem toNat_charOfNat (h : v.isValidChar) : (Char.ofNat v).toNat = v := by
  rw [Char.ofNat, dif_pos h]
  rfl

/-- Bytes that decode without an error begin with the bytes of a character. -/
theorem Clean.first (h : Clean .idle bs) (hne : bs ≠ []) :
    ∃ c rest, bs = encodeChar c ++ rest ∧ Clean .idle rest := by
  obtain ⟨b, bs, rfl⟩ := exists_cons_of_ne_nil hne
  obtain ⟨hno, hr⟩ := h.tail
  have hsp : step .idle b = lead b.toNat := by simp [step, Decoder.idle]
  have hb : b = UInt8.ofNat b.toNat := UInt8.ofNat_toNat.symm
  rw [hsp] at hno hr
  generalize b.toNat = v at *
  subst hb
  unfold lead at hno hr
  split at hr
  next h1 =>
    have hvd : v.isValidChar := .inl (by omega)
    refine ⟨Char.ofNat v, bs, ?_, hr⟩
    simp [encodeChar, toNat_charOfNat hvd, h1]
  rw [if_neg ‹_›] at hno
  split at hr
  next h1 h2 =>
    obtain ⟨n, rest, rfl, hn, hlo, hhi, hr⟩ := hr.within (by decide)
    obtain ⟨code, hcd⟩ : ∃ code, code = v % 32 * 64 + n % 64 := ⟨_, rfl⟩
    have hvd : code.isValidChar := .inl (by omega)
    refine ⟨Char.ofNat code, rest, ?_, hr⟩
    rw [encodeChar, toNat_charOfNat hvd]
    rw [if_neg (by omega), if_pos (by omega), show 0xC0 + code / 64 = v by omega,
      show 0x80 + code % 64 = n by omega]
    rfl
  rw [if_neg ‹_›] at hno
  split at hr
  next h0 h1 h2 =>
    obtain ⟨n, rest, rfl, hn, hlo, hhi, hr⟩ := hr.within (by decide)
    obtain ⟨m, rest, rfl, hm, hlo', hhi', hr⟩ := hr.within (by decide)
    have hn' : 0x80 ≤ n ∧ n ≤ 0xBF := by
      split at hlo <;> split at hhi <;> omega
    obtain ⟨code, hcd⟩ : ∃ code, code = (v % 16 * 64 + n % 64) * 64 + m % 64 := ⟨_, rfl⟩
    have hl : 0x800 ≤ code := by
      split at hlo <;> omega
    have hvd : code < 0xD800 ∨ 0xDFFF < code ∧ code < 0x110000 := by
      split at hhi <;> omega
    refine ⟨Char.ofNat code, rest, ?_, hr⟩
    rw [encodeChar, toNat_charOfNat hvd]
    rw [if_neg (by omega), if_neg (by omega), if_pos (by omega),
      show 0xE0 + code / 4096 = v by omega, show 0x80 + code / 64 % 64 = n by omega,
      show 0x80 + code % 64 = m by omega]
    rfl
  rw [if_neg ‹_›] at hno
  split at hr
  next h0 h1 h2 h3 =>
    obtain ⟨n, rest, rfl, hn, hlo, hhi, hr⟩ := hr.within (by decide)
    obtain ⟨m, rest, rfl, hm, hlo', hhi', hr⟩ := hr.within (by decide)
    obtain ⟨k, rest, rfl, hk, hlo'', hhi'', hr⟩ := hr.within (by decide)
    have hn' : 0x80 ≤ n ∧ n ≤ 0xBF := by
      split at hlo <;> split at hhi <;> omega
    obtain ⟨code, hcd⟩ : ∃ code, code = ((v % 8 * 64 + n % 64) * 64 + m % 64) * 64 + k % 64 :=
      ⟨_, rfl⟩
    have hl : 0x10000 ≤ code := by
      split at hlo <;> omega
    have hvd : code < 0xD800 ∨ 0xDFFF < code ∧ code < 0x110000 := by
      split at hhi <;> omega
    refine ⟨Char.ofNat code, rest, ?_, hr⟩
    rw [encodeChar, toNat_charOfNat hvd]
    rw [if_neg (by omega), if_neg (by omega), if_neg (by omega),
      show 0xF0 + code / 262144 = v by omega, show 0x80 + code / 4096 % 64 = n by omega,
      show 0x80 + code / 64 % 64 = m by omega, show 0x80 + code % 64 = k by omega]
    rfl
  · rw [if_neg ‹_›] at hno
    simp at hno

/-- **Bytes that decode without an error are the bytes of a text.** -/
theorem Clean.exists_text (h : Clean .idle bs) : ∃ text, bs = encode text := by
  induction hl : bs.length using Nat.strong_induction_on generalizing bs with
  | _ n ih =>
    by_cases hne : bs = []
    · exact ⟨[], hne⟩
    obtain ⟨c, rest, rfl, hr⟩ := h.first hne
    have hp := length_pos_iff.mpr (encodeChar_ne_nil c)
    rw [length_append] at hl
    obtain ⟨text, rfl⟩ := ih rest.length (by omega) hr rfl
    exact ⟨c :: text, (encode_cons c text).symm⟩

/-- The text of bytes that are valid, as `from_utf8` checks them. -/
def fromUtf8 (bytes : List UInt8) : Option (List Char) :=
  (decode bytes).mapM fun item => item.map Char.ofNat

theorem fromUtf8_encode (text : List Char) : fromUtf8 (encode text) = some text := by
  have hdc : decode (encode text) = text.map fun c => some c.toNat := by
    rw [decode, run_encode]
    exact append_nil _
  rw [fromUtf8, hdc]
  clear hdc
  induction text with
  | nil => rfl
  | cons c text ih =>
    rw [map_cons, mapM_cons, ih]
    simp [Char.ofNat_toNat]

/-- Bytes are valid if they are the bytes of a text, and that is the text. -/
theorem fromUtf8_eq_some : fromUtf8 bs = some text ↔ bs = encode text := by
  constructor
  · intro h
    have hno : none ∉ decode bs := by
      intro hm
      obtain ⟨pre, after, hs⟩ := append_of_mem hm
      rw [fromUtf8, hs, mapM_append, mapM_cons] at h
      cases hb : pre.mapM (fun item => item.map Char.ofNat) <;> simp [hb] at h
    have hc : Clean .idle bs := by
      refine ⟨fun hm => hno (mem_append_left _ hm), ?_⟩
      by_contra hn
      refine hno (mem_append_right _ ?_)
      rw [finish, if_neg hn]
      exact mem_singleton_self _
    obtain ⟨text', rfl⟩ := hc.exists_text
    rw [fromUtf8_encode] at h
    rw [Option.some.inj h]
  · rintro rfl
    exact fromUtf8_encode text

end ModelProxy.Utf8
