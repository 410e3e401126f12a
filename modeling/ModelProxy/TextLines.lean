import Mathlib.Data.List.DropRight
import Mathlib.Data.List.Infix
import ModelProxy.Utf8

/-! # Texts, their lines and their bytes

Strings of the command-line tool are lists of characters, and positions in them count the
bytes of their encoding.  Slices are taken at byte positions; lines keep their line feed.
-/
namespace ModelProxy
open List Utf8

/-- The characters of the `White_Space` property. -/
def isWhitespace (c : Char) : Bool :=
  let v := c.toNat
  (decide (0x09 ≤ v) && decide (v ≤ 0x0D)) || v == 0x20 || v == 0x85 || v == 0xA0 || v == 0x1680 ||
    (decide (0x2000 ≤ v) && decide (v ≤ 0x200A)) || v == 0x2028 || v == 0x2029 || v == 0x202F ||
    v == 0x205F || v == 0x3000

/-- `str::trim_start` -/
def trimStart (text : List Char) : List Char := text.dropWhile isWhitespace

/-- `str::trim_end` -/
def trimEnd (text : List Char) : List Char := text.rdropWhile isWhitespace

/-- `str::trim` -/
def trim (text : List Char) : List Char := trimEnd (trimStart text)

/-- What stands before the first occurrence of a word, and the text from there on. -/
def splitAtFirst (word : List Char) : List Char → Option (List Char × List Char)
  | [] => if word = [] then some ([], []) else none
  | c :: rest =>
    if word <+: c :: rest then some ([], c :: rest)
    else (splitAtFirst word rest).map fun found => (c :: found.1, found.2)

variable {text : List Char} {c : Char}

theorem mem_intercalate {d : Char} {ps : List (List Char)} (h : c ∈ [d].intercalate ps) :
    c = d ∨ ∃ part ∈ ps, c ∈ part := by
  induction ps with
  | nil => simp at h
  | cons part ps ih =>
    cases ps with
    | nil => exact .inr ⟨part, by simp, by simpa using h⟩
    | cons next ps =>
      rw [intercalate_cons_cons, mem_append, mem_append, mem_singleton] at h
      rcases h with (h | h) | h
      · exact .inr ⟨part, by simp, h⟩
      · exact .inl h
      · rcases ih h with h | ⟨p, hp, hc⟩
        · exact .inl h
        · exact .inr ⟨p, by simp [hp], hc⟩

/-- Whether a word occurs in a text. -/
def containsText (word text : List Char) : Bool := (splitAtFirst word text).isSome

/-- `split` by a word.  Every turn that goes on takes the word off, so the length of the text
bounds the turns. -/
def splitWord (word : List Char) : ℕ → List Char → List (List Char)
  | 0, text => [text]
  | turns + 1, text =>
    match splitAtFirst word text with
    | none => [text]
    | some (before, found) => before :: splitWord word turns (found.drop word.length)

/-- `split_inclusive`: the lines of a text, each with its line feed. -/
def splitInclusive {α : Type} [DecidableEq α] (lf : α) : List α → List (List α)
  | [] => []
  | c :: rest =>
    if c = lf then [c] :: splitInclusive lf rest
    else
      match splitInclusive lf rest with
      | [] => [[c]]
      | line :: lines => (c :: line) :: lines

/-! ## Slices at byte positions -/

open Utf8 (byteLength)

/-- The text after so many bytes. -/
def dropBytes : ℕ → List Char → List Char
  | _, [] => []
  | n, c :: rest => if n = 0 then c :: rest else dropBytes (n - byteLength [c]) rest

/-- The text of the first so many bytes. -/
def takeBytes : ℕ → List Char → List Char
  | _, [] => []
  | n, c :: rest => if n = 0 then [] else c :: takeBytes (n - byteLength [c]) rest

/-- `text[start..stop]`. -/
def slice (text : List Char) (start stop : ℕ) : List Char :=
  takeBytes (stop - start) (dropBytes start text)

/-! ## Splitting into lines -/

section
variable {α : Type} {lf : α}

/-- Lines as they are split: each ends in the only line feed it has, the last one perhaps not. -/
inductive Lines (lf : α) : List (List α) → Prop
  | nil : Lines lf []
  | last {line : List α} : line ≠ [] → lf ∉ line → Lines lf [line]
  | cons {line : List α} {lines : List (List α)} :
      lf ∉ line → Lines lf lines → Lines lf ((line ++ [lf]) :: lines)

variable {lines : List (List α)} {line : List α}

theorem Lines.drop (h : Lines lf lines) (n : ℕ) : Lines lf (lines.drop n) := by
  induction h generalizing n with
  | nil => simpa using Lines.nil
  | last hne hno =>
    cases n with
    | zero => exact .last hne hno
    | succ n => simpa using Lines.nil
  | cons hno hl ih =>
    cases n with
    | zero => exact .cons hno hl
    | succ n => exact ih n

theorem Lines.take (h : Lines lf lines) (n : ℕ) : Lines lf (lines.take n) := by
  induction h generalizing n with
  | nil => simpa using Lines.nil
  | last hne hno =>
    cases n with
    | zero => exact .nil
    | succ n => simpa using Lines.last hne hno
  | cons hno hl ih =>
    cases n with
    | zero => exact .nil
    | succ n => exact .cons hno (ih n)

theorem Lines.ne_nil (h : Lines lf lines) (hm : line ∈ lines) : line ≠ [] := by
  induction h with
  | nil => cases hm
  | last hne _ =>
    obtain rfl := mem_singleton.mp hm
    exact hne
  | cons _ _ ih =>
    rcases mem_cons.mp hm with rfl | hm
    · simp
    · exact ih hm

theorem Lines.notMem_dropLast (h : Lines lf lines) (hm : line ∈ lines) : lf ∉ line.dropLast := by
  induction h with
  | nil => cases hm
  | last _ hno =>
    obtain rfl := mem_singleton.mp hm
    exact fun hlf => hno (mem_of_mem_dropLast hlf)
  | cons hno _ ih =>
    rcases mem_cons.mp hm with rfl | hm
    · rwa [dropLast_concat]
    · exact ih hm

/-- A text cut anywhere is whole lines and part of one. -/
theorem Lines.cut (h : Lines lf lines) (n : ℕ) :
    ∃ k part, k ≤ lines.length ∧ lines.flatten.take n = (lines.take k).flatten ++ part ∧
      lf ∉ part ∧ ∀ line ∈ lines.take k, line.getLast? = some lf := by
  induction h generalizing n with
  | nil => exact ⟨0, [], Nat.zero_le _, by simp, by simp, by simp⟩
  | @last line hne hno =>
    exact ⟨0, line.take n, Nat.zero_le _, by simp, fun hm => hno (mem_of_mem_take hm), by simp⟩
  | @cons line lines hno hn ih =>
    by_cases hl : n ≤ line.length
    · refine ⟨0, line.take n, Nat.zero_le _, ?_, fun hm => hno (mem_of_mem_take hm), by simp⟩
      rw [flatten_cons, append_assoc, take_append_of_le_length hl]
      rfl
    · obtain ⟨k, part, hk, htk, hpt, hnd⟩ := ih (n - (line ++ [lf]).length)
      refine ⟨k + 1, part, Nat.succ_le_succ hk, ?_, hpt, ?_⟩
      · rw [flatten_cons, take_append, htk, take_succ_cons, flatten_cons,
          take_of_length_le (by simp; omega)]
        simp only [append_assoc]
      · intro line' hm
        rcases mem_cons.mp hm with rfl | hm
        · simp
        · exact hnd line' hm

variable [DecidableEq α]

/-- The lines joined are the text. -/
theorem splitInclusive_flatten (text : List α) : (splitInclusive lf text).flatten = text := by
  induction text with
  | nil => rfl
  | cons c rest ih =>
    unfold splitInclusive
    split
    · rw [flatten_cons, ih]
      rfl
    split at *
    next h =>
      rw [h] at ih
      rw [← ih]
      rfl
    next line lines h =>
      rw [h] at ih
      rw [flatten_cons, cons_append, ← flatten_cons, ih]

/-- Every part but the last ends its line. -/
theorem lines_splitInclusive (text : List α) : Lines lf (splitInclusive lf text) := by
  induction text with
  | nil => exact .nil
  | cons c rest ih =>
    unfold splitInclusive
    split
    next hc =>
      subst hc
      show Lines c (([] ++ [c]) :: splitInclusive c rest)
      exact .cons (by simp) ih
    next hc =>
    have hf {line : List α} (h : lf ∉ line) : lf ∉ c :: line := by
      simpa [Ne.symm hc] using h
    generalize splitInclusive lf rest = lines at ih
    cases ih with
    | nil => exact .last (cons_ne_nil c []) (hf (by simp))
    | last hne hno => exact .last (cons_ne_nil c _) (hf hno)
    | @cons line lines hno hl =>
      show Lines lf ((c :: line ++ [lf]) :: lines)
      exact .cons (hf hno) hl

theorem splitInclusive_append (h : lf ∉ line) (rest : List α) :
    splitInclusive lf (line ++ [lf] ++ rest) = (line ++ [lf]) :: splitInclusive lf rest := by
  induction line with
  | nil => simp [splitInclusive]
  | cons c line ih =>
    have hc : c ≠ lf := fun heq => h (by simp [heq])
    have ih := ih fun hm => h (mem_cons_of_mem c hm)
    rw [cons_append, cons_append, splitInclusive, if_neg hc, ih]

theorem splitInclusive_last (hne : line ≠ []) (h : lf ∉ line) :
    splitInclusive lf line = [line] := by
  induction line with
  | nil => exact absurd rfl hne
  | cons c line ih =>
    have hc : c ≠ lf := fun heq => h (by simp [heq])
    rw [splitInclusive, if_neg hc]
    by_cases hln : line = []
    · subst hln
      rfl
    · rw [ih hln fun hm => h (mem_cons_of_mem c hm)]

/-- **Lines are what their text splits into.** -/
theorem Lines.split (h : Lines lf lines) : splitInclusive lf lines.flatten = lines := by
  induction h with
  | nil => rfl
  | last hne hno =>
    rw [flatten_cons, flatten_nil, append_nil, splitInclusive_last hne hno]
  | cons hno hl ih => rw [flatten_cons, splitInclusive_append hno, ih]

end

/-! ## Line feeds and their bytes -/

/-- The byte of a line feed. -/
def lfByte : UInt8 := 0x0A

/-- Only a line feed holds its byte. -/
theorem lfByte_mem_encodeChar : lfByte ∈ encodeChar c ↔ c = '\n' := by
  have ht : c.toNat = 10 ↔ c = '\n' := by
    constructor
    · intro h
      rw [← Char.ofNat_toNat c, h]
    · rintro rfl
      rfl
  rw [← ht]
  have hby {n : ℕ} (h : n < 256) : lfByte = UInt8.ofNat n ↔ n = 10 := by
    rw [← UInt8.toNat_inj, UInt8.toNat_ofNat_of_lt' h]
    exact eq_comm
  have hvd := isValidChar_toNat c
  unfold encodeChar
  dsimp only
  split_ifs with h1 h2 h3
  · rw [mem_singleton, hby (by omega)]
  · simp only [mem_cons, not_mem_nil, or_false]
    rw [hby (by omega), hby (by omega)]
    omega
  · simp only [mem_cons, not_mem_nil, or_false]
    rw [hby (by omega), hby (by omega), hby (by omega)]
    omega
  · simp only [mem_cons, not_mem_nil, or_false]
    rw [hby (by omega), hby (by omega), hby (by omega), hby (by omega)]
    omega

theorem lfByte_mem_encode : lfByte ∈ encode text ↔ '\n' ∈ text := by
  unfold encode
  rw [mem_flatMap]
  constructor
  · rintro ⟨c, hc, hm⟩
    exact lfByte_mem_encodeChar.mp hm ▸ hc
  · exact fun h => ⟨'\n', h, lfByte_mem_encodeChar.mpr rfl⟩

/-! ## Slicing on boundaries -/

theorem byteLength_cons_pos (c : Char) (text : List Char) :
    byteLength (c :: text) = byteLength [c] + byteLength text ∧ 0 < byteLength [c] := by
  refine ⟨?_, byteLength_pos (cons_ne_nil c [])⟩
  rw [← byteLength_append, singleton_append]

theorem dropBytes_byteLength (pre after : List Char) :
    dropBytes (byteLength pre) (pre ++ after) = after := by
  induction pre with
  | nil => cases after <;> rfl
  | cons c pre ih =>
    obtain ⟨hs, hp⟩ := byteLength_cons_pos c pre
    rw [cons_append, dropBytes, if_neg (by omega), hs, Nat.add_sub_cancel_left, ih]

theorem takeBytes_byteLength (before post : List Char) :
    takeBytes (byteLength before) (before ++ post) = before := by
  induction before with
  | nil => cases post <;> rfl
  | cons c before ih =>
    obtain ⟨hs, hp⟩ := byteLength_cons_pos c before
    rw [cons_append, takeBytes, if_neg (by omega), hs, Nat.add_sub_cancel_left, ih]

/-- Of two ways to cut a text, the one with fewer bytes in front cuts the front of the other. -/
theorem append_eq_append_of_le {pre rest pre' rest' : List Char}
    (h : pre ++ rest = pre' ++ rest') (hle : byteLength pre ≤ byteLength pre') :
    ∃ middle, pre' = pre ++ middle ∧ rest = middle ++ rest' := by
  rcases append_eq_append_iff.mp h with ⟨middle, hf, hbk⟩ | ⟨middle, rfl, rfl⟩
  · exact ⟨middle, hf, hbk⟩
  have hn : middle = [] := by
    by_contra hne
    have hp := byteLength_pos hne
    rw [byteLength_append] at hle
    omega
  subst hn
  exact ⟨[], by simp, rfl⟩

theorem mem_of_mem_slice {start stop : ℕ} (h : c ∈ slice text start stop) : c ∈ text := by
  have htk (n : ℕ) (text : List Char) (h : c ∈ takeBytes n text) : c ∈ text := by
    induction text generalizing n with
    | nil => cases h
    | cons d text ih =>
      rw [takeBytes] at h
      split at h
      · cases h
      · rcases mem_cons.mp h with rfl | h
        · exact mem_cons_self
        · exact mem_cons_of_mem d (ih _ h)
  have hdr (n : ℕ) (text : List Char) (h : c ∈ dropBytes n text) : c ∈ text := by
    induction text generalizing n with
    | nil => cases h
    | cons d text ih =>
      rw [dropBytes] at h
      split at h
      · exact h
      · exact mem_cons_of_mem d (ih _ h)
  exact hdr _ _ (htk _ _ h)

/-- The slice between two boundaries. -/
theorem slice_append (pre middle post : List Char) :
    slice (pre ++ (middle ++ post)) (byteLength pre)
      (byteLength pre + byteLength middle) = middle := by
  rw [slice, dropBytes_byteLength, Nat.add_sub_cancel_left, takeBytes_byteLength]

end ModelProxy
