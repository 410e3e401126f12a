import ModelProxy.LineMasker

/-! # Windows of a file

A read that starts in the middle of a file feeds the masker some lines before the window
first: those from the line before the one that holds the byte `lookback` bytes before it.
-/
namespace ModelProxy.Redact
open List Utf8
open Utf8 (byteLength)

/-- `line_offset`: where the line with this number starts, or the end of the file. -/
def lineOffset : List UInt8 → ℕ → ℕ
  | _, 0 => 0
  | [], _ + 1 => 0
  | b :: bytes, n + 1 => 1 + if b = lfByte then lineOffset bytes n else lineOffset bytes (n + 1)

/-- Where the line starts that the last of these bytes is followed in. -/
def lastLineStart (bytes : List UInt8) : ℕ := (bytes.rdropWhile (· != lfByte)).length

/-- `lookback_start_with`. -/
def lookbackStartWith (bytes : List UInt8) (offset lookback : ℕ) : ℕ :=
  let from_ := offset - lookback
  if from_ = 0 then 0
  else
    let containing := lastLineStart (bytes.take from_)
    if containing = 0 then 0 else lastLineStart (bytes.take (containing - 1))

/-- Lines scanned one after the other. -/
def LineMasker.scanLines (m : LineMasker) :
    List (List Char) → LineMasker × List (List LineMask)
  | [] => (m, [])
  | line :: lines =>
    let (m', masks) := m.scan line
    let (m'', rest) := m'.scanLines lines
    (m'', masks :: rest)

/-- The masks of the lines of a window that starts at a byte of a text: the lines from
`lookback_start_with` on are fed first. -/
def windowMasks (fileClass : FileClass) (text : List Char) (offset lookback : ℕ) :
    List (List LineMask) :=
  let contextFrom := lookbackStartWith (Utf8.encode text) offset lookback
  let context := (splitInclusive '\n' (slice text contextFrom offset)).map lineBody
  let window := (splitInclusive '\n' (dropBytes offset text)).map lineBody
  ((LineMasker.new fileClass).scanLines context).1.scanLines window |>.2

/-! ## Lines and their bytes -/

theorem encode_flatten (lines : List (List Char)) :
    encode lines.flatten = (lines.map encode).flatten := by
  induction lines with
  | nil => rfl
  | cons line lines ih =>
    rw [flatten_cons, encode_append, ih]
    rfl

/-- The bytes of lines are lines of bytes. -/
theorem lines_encode {lines : List (List Char)} (h : Lines '\n' lines) :
    Lines lfByte (lines.map encode) := by
  induction h with
  | nil => exact .nil
  | @last line hne hno =>
    refine .last ?_ (mt lfByte_mem_encode.mp hno)
    have hp := byteLength_pos hne
    intro hn
    rw [byteLength, hn] at hp
    exact absurd hp (lt_irrefl 0)
  | @cons line lines hno _ ih =>
    have hln : encode (line ++ ['\n']) = encode line ++ [lfByte] := by
      rw [encode_append]
      rfl
    rw [map_cons, hln]
    exact .cons (mt lfByte_mem_encode.mp hno) ih

variable {lines : List (List UInt8)}

/-- Where a line starts is the size of the lines before it. -/
theorem lineOffset_lines (h : Lines lfByte lines) (n : ℕ) :
    lineOffset lines.flatten n = (lines.take n).flatten.length := by
  have hpt {line : List UInt8} (hno : lfByte ∉ line) (rest : List UInt8) (n : ℕ) :
      lineOffset (line ++ rest) (n + 1) = line.length + lineOffset rest (n + 1) := by
    induction line with
    | nil => simp
    | cons b line ih =>
      have hb : b ≠ lfByte := fun heq => hno (by simp [heq])
      rw [cons_append, lineOffset, if_neg hb, ih fun hm => hno (mem_cons_of_mem b hm), length_cons]
      omega
  induction h generalizing n with
  | nil => cases n <;> rfl
  | @last line hne hno =>
    cases n with
    | zero => simp [lineOffset]
    | succ n =>
      have hln := hpt hno [] n
      rw [append_nil] at hln
      rw [flatten_cons, flatten_nil, append_nil, hln]
      simp [lineOffset]
  | @cons line lines hno hl ih =>
    cases n with
    | zero => simp [lineOffset]
    | succ n =>
      rw [flatten_cons, append_assoc, hpt hno]
      rw [singleton_append, lineOffset, if_pos rfl, ih, take_succ_cons, flatten_cons]
      simp only [length_append, length_singleton]
      omega

/-- The line start found in whole lines and part of one is where the whole lines end. -/
theorem lastLineStart_lines {p : List UInt8}
    (hnd : ∀ line ∈ lines, line.getLast? = some lfByte) (hpt : lfByte ∉ p) :
    lastLineStart (lines.flatten ++ p) = lines.flatten.length := by
  have hdr : (lines.flatten ++ p).rdropWhile (· != lfByte) = lines.flatten := by
    have hsk : (lines.flatten ++ p).rdropWhile (· != lfByte) =
        lines.flatten.rdropWhile (· != lfByte) := by
      rw [rdropWhile, reverse_append, dropWhile_append_of_pos]
      · rfl
      · intro b hb
        have hne : b ≠ lfByte := fun heq => hpt (heq ▸ mem_reverse.mp hb)
        simpa using hne
    rw [hsk]
    rcases eq_nil_or_concat' lines with rfl | ⟨init, line, rfl⟩
    · rfl
    have hln := hnd line (by simp)
    rcases eq_nil_or_concat' line with rfl | ⟨body, b, rfl⟩
    · cases hln
    · rw [getLast?_concat] at hln
      cases hln
      rw [flatten_append, flatten_singleton, ← append_assoc, rdropWhile_concat_neg _ _ _ (by simp)]
  rw [lastLineStart, hdr]

/-- The line before whole lines and the beginning of their last one. -/
theorem lastLineStart_previous (h : Lines lfByte lines) {k : ℕ} (hk : k < lines.length)
    (hnd : ∀ line ∈ lines.take (k + 1), line.getLast? = some lfByte) :
    lastLineStart (lines.flatten.take ((lines.take (k + 1)).flatten.length - 1)) =
      (lines.take k).flatten.length := by
  obtain ⟨line, hln⟩ : ∃ line, lines[k]? = some line := ⟨_, getElem?_eq_getElem hk⟩
  have htk : lines.take (k + 1) = lines.take k ++ [line] := by
    rw [take_add_one, hln]
    rfl
  have hm : line ∈ lines := mem_of_getElem? hln
  have hla : line.getLast? = some lfByte := hnd line (by simp [htk])
  have hi := dropLast_append_getLast? lfByte hla
  have hf : (lines.take (k + 1)).flatten = (lines.take k).flatten ++ line.dropLast ++ [lfByte] := by
    rw [htk, flatten_append, flatten_singleton, append_assoc, hi]
  have hc : lines.flatten.take ((lines.take (k + 1)).flatten.length - 1) =
      (lines.take k).flatten ++ line.dropLast := by
    have ha : lines.flatten = (lines.take k).flatten ++ line.dropLast ++
        ([lfByte] ++ (lines.drop (k + 1)).flatten) := by
      rw [← append_assoc, ← hf, ← flatten_append, take_append_drop]
    have hl : ((lines.take k).flatten ++ line.dropLast).length =
        (lines.take (k + 1)).flatten.length - 1 := by
      rw [hf]
      simp
    rw [← hl, ha, take_left]
  rw [hc, lastLineStart_lines ?_ (h.notMem_dropLast hm)]
  intro line' hln'
  exact hnd line' (by rw [htk]; simp [hln'])

/-- **The context starts with a line**: the first one, or one that is followed by a line that
starts `lookback` bytes or more before the window. -/
theorem lookbackStartWith_lines (h : Lines lfByte lines) (w back : ℕ) :
    ∃ s, lookbackStartWith lines.flatten (lines.take w).flatten.length back =
        (lines.take s).flatten.length ∧
      (s = 0 ∨ s + 1 ≤ w ∧ s + 1 ≤ lines.length ∧
        (lines.take (s + 1)).flatten.length ≤ (lines.take w).flatten.length - back) := by
  unfold lookbackStartWith
  dsimp only
  generalize hf : (lines.take w).flatten.length - back = from_
  split
  · exact ⟨0, rfl, .inl rfl⟩
  obtain ⟨k, part, hk, htk, hpt, hnd⟩ := h.cut from_
  rw [htk, lastLineStart_lines hnd hpt]
  split
  · exact ⟨0, rfl, .inl rfl⟩
  next hne =>
  obtain ⟨s, rfl⟩ : ∃ s, k = s + 1 := by
    cases k with
    | zero => exact absurd rfl hne
    | succ s => exact ⟨s, rfl⟩
  have hle : (lines.take (s + 1)).flatten.length ≤ from_ := by
    have hl := congrArg length htk
    rw [length_take, length_append] at hl
    omega
  refine ⟨s, lastLineStart_previous h hk hnd, .inr ⟨?_, hk, hle⟩⟩
  -- A longer run of lines has more bytes, as no line is empty.
  by_contra hlt
  have hs : lines.take w = (lines.take (s + 1)).take w := by
    rw [take_take, min_eq_left (by omega)]
  have hp : (lines.take (s + 1)).flatten =
      (lines.take w).flatten ++ ((lines.take (s + 1)).drop w).flatten := by
    rw [hs, ← flatten_append, take_append_drop]
  obtain ⟨line, hln⟩ : ∃ line, line ∈ (lines.take (s + 1)).drop w := by
    apply exists_mem_of_length_pos
    rw [length_drop, length_take]
    omega
  have hpo : 0 < ((lines.take (s + 1)).drop w).flatten.length := by
    have hn := length_pos_iff.mpr (h.ne_nil (mem_of_mem_take (mem_of_mem_drop hln)))
    rw [length_pos_iff, Ne, flatten_eq_nil_iff]
    intro ha
    rw [ha line hln] at hn
    exact absurd hn (lt_irrefl 0)
  have hl := congrArg length hp
  rw [length_append] at hl
  omega

end ModelProxy.Redact
