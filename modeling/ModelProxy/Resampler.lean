import Mathlib.Algebra.Order.Round
import Mathlib.Algebra.BigOperators.Group.Finset.Basic
import Mathlib.Data.Int.ModEq
import Mathlib.Data.List.GetD
import Mathlib.Data.Rat.Floor
import Mathlib.Tactic.Linarith
import Mathlib.Tactic.Ring

/-! # The streaming resampler

Speech arrives as 24 kHz samples in byte pieces cut anywhere, and leaves at 16 kHz: zeros between
the samples, a low-pass filter of `tapCount` taps, and every third value.  The resampler keeps the
samples a later output can reach, and the first byte of a sample that was cut in two.

`filterSum` is the filter over the whole signal, and `IsSample` says which sample a sum is.
`Keeps` says what the resampler has left of the signal, so that every output is that of the whole.
Arithmetic is exact, in any field with a floor.
-/
namespace ModelProxy.Stt

variable {K : Type} [Field K]

/-- `TAPS`. -/
def tapCount : ℕ := 96

/-- The newest input samples; the first has index `base`. -/
structure Resampler where
  history : List ℤ
  base : ℕ
  consumed : ℕ
  nextOut : ℕ
  carry : Option UInt8

/-- The resampler before its first sample. -/
def Resampler.new : Resampler := ⟨[], 0, 0, 0, none⟩

/-- A sample of two bytes, the low one first. -/
def ofLeBytes (low high : UInt8) : ℤ :=
  let word : ℤ := low.toNat + 256 * high.toNat
  if word < 32768 then word else word - 65536

/-- Half away from zero, then into the range of a sample. -/
def roundClamp [LinearOrder K] [FloorRing K] (x : K) : ℤ :=
  max (-32768) (min 32767 (if 0 ≤ x then round x else -round (-x)))

/-- The oldest sample that the outputs from `m` on reach. -/
def oldest (m : ℕ) : ℕ := (3 * m - (tapCount - 1) + 1) / 2

namespace Resampler

/-- What the input at `index` of the zero-stuffed signal adds; only even places carry input. -/
def addTap (r : Resampler) (tap : K) (index : ℕ) (acc : K) : K :=
  if index % 2 ≠ 0 ∨ index / 2 < r.base then acc
  else r.history[index / 2 - r.base]?.elim acc fun sample => acc + tap * sample

/-- The sum of an output over the taps from the `k`-th on. -/
def accumulate (r : Resampler) (position : ℕ) : List K → ℕ → K → K
  | [], _, acc => acc
  | tap :: taps, k, acc =>
    if position < k then acc
    else accumulate r position taps (k + 1) (r.addTap tap (position - k) acc)

variable [LinearOrder K] [FloorRing K]

/-- The output sample `m`. -/
def output (taps : List K) (r : Resampler) (m : ℕ) : ℤ := roundClamp (r.accumulate (3 * m) taps 0 0)

/-- Every output that is now computable. -/
def emit (taps : List K) (r : Resampler) : Resampler × List ℤ :=
  if 3 * r.nextOut / 2 < r.consumed then
    let out := r.output taps r.nextOut
    let (r, outs) := emit taps { r with nextOut := r.nextOut + 1 }
    (r, out :: outs)
  else (r, [])
termination_by 2 * r.consumed - 3 * r.nextOut
decreasing_by omega

/-- Drop the samples before `oldest`. -/
def dropOld (oldest : ℕ) : List ℤ → ℕ → List ℤ × ℕ
  | [], base => ([], base)
  | sample :: history, base =>
    if base < oldest then dropOld oldest history (base + 1) else (sample :: history, base)

/-- Takes one input sample. -/
def pushSample (taps : List K) (r : Resampler) (sample : ℤ) : Resampler × List ℤ :=
  let (r, outs) :=
    emit taps { r with history := r.history ++ [sample], consumed := r.consumed + 1 }
  let (history, base) := dropOld (oldest r.nextOut) r.history r.base
  ({ r with history, base }, outs)

/-- Takes the samples of a run of bytes. -/
def pushPairs (taps : List K) (r : Resampler) : List UInt8 → Resampler × List ℤ
  | low :: high :: rest =>
    let (r, outs) := r.pushSample taps (ofLeBytes low high)
    let (r, more) := pushPairs taps r rest
    (r, outs ++ more)
  | [low] => ({ r with carry := some low }, [])
  | [] => (r, [])

/-- Feed bytes; the outputs now computable. -/
def push (taps : List K) (r : Resampler) (bytes : List UInt8) : Resampler × List ℤ :=
  match r.carry, bytes with
  | some _, [] => (r, [])
  | some low, high :: rest =>
    let (r, outs) := { r with carry := none }.pushSample taps (ofLeBytes low high)
    let (r, more) := r.pushPairs taps rest
    (r, outs ++ more)
  | none, bytes => r.pushPairs taps bytes

/-- The pieces of a signal, one push each. -/
def pushAll (taps : List K) : Resampler → List (List UInt8) → Resampler × List ℤ
  | r, [] => (r, [])
  | r, bytes :: rest =>
    let (r, outs) := r.push taps bytes
    let (r, more) := pushAll taps r rest
    (r, outs ++ more)

end Resampler

/-! ### The whole signal -/

/-- The complete samples of a byte sequence. -/
def samples : List UInt8 → List ℤ
  | low :: high :: rest => ofLeBytes low high :: samples rest
  | _ => []

/-- The byte after the last complete sample. -/
def oddByte : List UInt8 → Option UInt8
  | _ :: _ :: rest => oddByte rest
  | [low] => some low
  | [] => none

/-- Value `3 * m` of the zero-stuffed signal under the filter. -/
def filterSum (taps : List K) (input : List ℤ) (m : ℕ) : K :=
  ∑ k ∈ Finset.range taps.length,
    if k ≤ 3 * m ∧ (3 * m - k) % 2 = 0 then taps.getD k 0 * (input.getD ((3 * m - k) / 2) 0 : ℤ)
    else 0

/-- That value as a sample. -/
def filtered [LinearOrder K] [FloorRing K] (taps : List K) (input : List ℤ) (m : ℕ) : ℤ :=
  roundClamp (filterSum taps input m)

/-- A nearest integer; of two, the one away from zero. -/
structure Rounds [LinearOrder K] (x : K) (n : ℤ) : Prop where
  near : |x - n| + |x - n| ≤ 1
  away : |x - n| + |x - n| = 1 → |x| < |(n : K)|

/-- The sample of a value: rounded, then kept within 16 bits. -/
def IsSample [LinearOrder K] (x : K) (sample : ℤ) : Prop :=
  ∃ n, Rounds x n ∧ sample = max (-32768) (min 32767 n)

/-- The sample two bytes hold in two's complement, the low one first. -/
structure IsWord (low high : UInt8) (sample : ℤ) : Prop where
  lower : -32768 ≤ sample
  upper : sample ≤ 32767
  word : sample ≡ low.toNat + 256 * high.toNat [ZMOD 65536]

/-- `⌈2n/3⌉`, the outputs that `n` samples allow. -/
def outCount (n : ℕ) : ℕ := (2 * n + 2) / 3

/-- The filtered signal. -/
def outputs [LinearOrder K] [FloorRing K] (taps : List K) (input : List ℤ) : List ℤ :=
  (List.range (outCount input.length)).map (filtered taps input)

/-- What the resampler has left of the input. -/
structure Keeps (input : List ℤ) (carry : Option UInt8) (r : Resampler) : Prop where
  carry : r.carry = carry
  consumed : r.consumed = input.length
  nextOut : r.nextOut = outCount input.length
  base : r.base = oldest r.nextOut
  history : r.history = input.drop r.base

/-- From one input to a longer one, with the outputs between. -/
structure Advances [LinearOrder K] [FloorRing K] (taps : List K) (input input' : List ℤ)
    (carry : Option UInt8) (result : Resampler × List ℤ) : Prop where
  keeps : Keeps input' carry result.1
  outs : outputs taps input ++ result.2 = outputs taps input'

theorem ofLeBytes_isWord (low high : UInt8) : IsWord low high (ofLeBytes low high) := by
  have hlo := low.toNat_lt
  have hhi := high.toNat_lt
  unfold ofLeBytes
  dsimp only
  split
  · exact ⟨by omega, by omega, rfl⟩
  · exact ⟨by omega, by omega, Int.modEq_iff_dvd.mpr (by omega)⟩

section Rounding
variable [LinearOrder K] [FloorRing K] [IsStrictOrderedRing K] {x : K}

theorem rounds_round (hx : 0 ≤ x) : Rounds x (round x) := by
  have hhalf : (2⁻¹ : K) + 2⁻¹ = 1 := by norm_num
  have hlo := Int.floor_le (x + 1 / 2)
  have hhi := Int.lt_floor_add_one (x + 1 / 2)
  rw [← round_eq, one_div] at hlo hhi
  constructor
  · rcases abs_cases (x - round x) with h | h <;> linarith
  · intro htie
    rcases abs_cases (x - round x) with h | h
    · linarith
    · rw [abs_of_nonneg hx, abs_of_pos] <;> linarith

/-- What is rounded is a sample. -/
theorem roundClamp_isSample (x : K) : IsSample x (roundClamp x) := by
  refine ⟨_, ?_, rfl⟩
  split
  next hx => exact rounds_round hx
  next hx =>
    obtain ⟨hn, ha⟩ := rounds_round (neg_nonneg.mpr (not_le.mp hx).le)
    have he : |x - ((-round (-x) : ℤ) : K)| = |-x - round (-x)| := by
      rw [← abs_neg]
      push_cast
      ring_nf
    refine ⟨he ▸ hn, fun htie => ?_⟩
    rw [he] at htie
    simpa using ha htie

end Rounding

open Resampler List

variable {input : List ℤ} {carry : Option UInt8} {r : Resampler} {taps : List K}

theorem oldest_le {m n k : ℕ} (h : n ≤ m) (hk : k < tapCount) (hev : (3 * m - k) % 2 = 0) :
    oldest n ≤ (3 * m - k) / 2 := by
  unfold oldest tapCount at *
  omega

theorem oldest_mono {m n : ℕ} (h : m ≤ n) : oldest m ≤ oldest n := by
  unfold oldest
  omega

theorem addTap_eq (hh : r.history = input.drop r.base) {i : ℕ}
    (hb : i % 2 = 0 → r.base ≤ i / 2) (tap acc : K) : r.addTap tap i acc =
      acc + if i % 2 = 0 then tap * (input.getD (i / 2) 0 : ℤ) else 0 := by
  unfold addTap
  by_cases hev : i % 2 = 0
  · have hg : r.history[i / 2 - r.base]? = input[i / 2]? := by
      rw [hh, getElem?_drop, Nat.add_sub_cancel' (hb hev)]
    rw [if_neg (by simp [hev, hb hev]), if_pos hev, hg, getD_eq_getElem?_getD]
    cases input[i / 2]? <;> simp
  · simp [hev]

/-- The accumulator is the filter's sum. -/
theorem accumulate_eq (hh : r.history = input.drop r.base) (pos : ℕ) :
    ∀ (taps : List K) (k : ℕ) (acc : K),
      (∀ j < k + taps.length, (pos - j) % 2 = 0 → r.base ≤ (pos - j) / 2) →
      r.accumulate pos taps k acc = acc + ∑ j ∈ Finset.range taps.length,
        if k + j ≤ pos ∧ (pos - (k + j)) % 2 = 0 then
          taps.getD j 0 * (input.getD ((pos - (k + j)) / 2) 0 : ℤ)
        else 0
  | [], k, acc, _ => by simp [accumulate]
  | tap :: taps, k, acc, hre => by
    have ih := fun acc => accumulate_eq hh pos taps (k + 1) acc fun j hj =>
      hre j (by rw [length_cons]; omega)
    have hsf : ∀ j, k + 1 + j = k + (j + 1) := fun j => by omega
    simp only [hsf] at ih
    rw [accumulate, length_cons, Finset.sum_range_succ']
    simp only [getD_cons_succ, getD_cons_zero, Nat.add_zero]
    by_cases hps : pos < k
    · rw [if_pos hps, if_neg (by omega), Finset.sum_eq_zero fun j _ => if_neg (by omega)]
      simp
    · rw [if_neg hps, ih, addTap_eq hh (hre k (by rw [length_cons]; omega))]
      simp only [Nat.not_lt.mp hps, true_and]
      ring

variable [LinearOrder K] [FloorRing K]

theorem output_eq (hh : r.history = input.drop r.base) (ht : taps.length = tapCount)
    (hb : r.base ≤ oldest r.nextOut) : r.output taps r.nextOut = filtered taps input r.nextOut := by
  unfold output filtered filterSum
  rw [accumulate_eq hh _ taps 0 0 fun j hj hev => hb.trans (oldest_le le_rfl (by omega) hev)]
  simp

/-- Everything due is emitted. -/
theorem emit_eq (ht : taps.length = tapCount) (hc : r.consumed = input.length)
    (hh : r.history = input.drop r.base) (hb : r.base ≤ oldest r.nextOut)
    (hn : r.nextOut ≤ outCount input.length) :
    r.emit taps = ({ r with nextOut := outCount input.length },
      (range' r.nextOut (outCount input.length - r.nextOut)).map (filtered taps input)) := by
  fun_induction emit taps r with
  | case1 r hlt out r' outs hr ih =>
    have hlt' : r.nextOut < outCount input.length := by unfold outCount; omega
    have hnx := ih hc hh (hb.trans (oldest_mono (Nat.le_succ _))) hlt'
    rw [hr] at hnx
    cases hnx
    rw [← Nat.succ_pred_eq_of_pos (Nat.sub_pos_of_lt hlt'), range'_succ, map_cons,
      ← output_eq hh ht hb]
    rfl
  | case2 r hge =>
    have hd : outCount input.length = r.nextOut := by unfold outCount at *; omega
    rw [hd, Nat.sub_self]
    rfl

theorem dropOld_eq (oldest : ℕ) : ∀ (history : List ℤ) (base : ℕ), base ≤ oldest →
    oldest ≤ base + history.length →
    dropOld oldest history base = (history.drop (oldest - base), oldest)
  | [], base, hle, h => by
    have : base = oldest := by simpa using le_antisymm hle h
    simp [dropOld, this]
  | sample :: history, base, hle, h => by
    rw [dropOld]
    split
    next hlt =>
      rw [dropOld_eq oldest history (base + 1) hlt (by rw [length_cons] at h; omega),
        show oldest - base = oldest - (base + 1) + 1 by omega, drop_succ_cons]
    next hge =>
      obtain rfl : base = oldest := by omega
      simp

theorem filtered_append {m : ℕ} (hm : m < outCount input.length) (more : List ℤ) :
    filtered taps (input ++ more) m = filtered taps input m := by
  unfold filtered filterSum
  congr 1
  refine Finset.sum_congr rfl fun k _ => ?_
  split
  · rw [getD_append _ _ _ _ (by unfold outCount at hm; omega)]
  · rfl

theorem outputs_append (input more : List ℤ) :
    outputs taps (input ++ more) = outputs taps input ++
      (range' (outCount input.length) (outCount (input ++ more).length - outCount input.length)).map
        (filtered taps (input ++ more)) := by
  have hle : outCount input.length ≤ outCount (input ++ more).length := by
    rw [length_append]
    unfold outCount
    omega
  unfold outputs
  conv_lhs => rw [← Nat.add_sub_cancel' hle, range_add, map_append]
  rw [range'_eq_map_range]
  exact congrArg (· ++ _) (map_congr_left fun m hm => filtered_append (mem_range.mp hm) more)

/-- The step lemma for a sample. -/
theorem pushSample_advances (ht : taps.length = tapCount) (h : Keeps input carry r)
    (sample : ℤ) : Advances taps input (input ++ [sample]) carry (r.pushSample taps sample) := by
  obtain ⟨hcy, hc, hn, hb, hh⟩ := h
  have hnx : r.nextOut ≤ outCount (input ++ [sample]).length := by
    rw [hn, length_append]
    unfold outCount
    omega
  have hbs : r.base ≤ input.length := by
    rw [hb, hn]
    unfold oldest tapCount outCount
    omega
  have hkp : r.history ++ [sample] = (input ++ [sample]).drop r.base := by
    rw [hh, drop_append_of_le_length hbs]
  have hf : oldest (outCount (input ++ [sample]).length) ≤
      r.base + (r.history ++ [sample]).length := by
    rw [hkp, length_drop, length_append]
    unfold oldest tapCount outCount
    omega
  have hold := hb ▸ oldest_mono hnx
  unfold pushSample
  rw [@emit_eq K _ (input ++ [sample]) ⟨r.history ++ [sample], _, r.consumed + 1, _, _⟩ taps _ _
    ht (by simp [hc]) hkp hb.le hnx]
  simp only
  rw [dropOld_eq _ _ _ hold hf]
  refine ⟨⟨hcy, by simp [hc], rfl, rfl, ?_⟩, ?_⟩
  · simp only [hkp, drop_drop, Nat.add_sub_cancel' hold]
  · rw [outputs_append, ← hn]

theorem pushPairs_advances (ht : taps.length = tapCount) (bs : List UInt8)
    (h : Keeps input none r) :
    Advances taps input (input ++ samples bs) (oddByte bs) (r.pushPairs taps bs) := by
  fun_induction pushPairs taps r bs generalizing input with
  | case1 r low high rest r₁ outs hp r₂ more hr ih =>
    have h₁ := pushSample_advances ht h (ofLeBytes low high)
    rw [hp] at h₁
    have h₂ := ih h₁.keeps
    rw [hr, append_assoc, singleton_append] at h₂
    exact ⟨h₂.keeps, by rw [← append_assoc, h₁.outs]; exact h₂.outs⟩
  | case2 r low =>
    rw [samples, append_nil] <;> try simp
    exact ⟨⟨rfl, h.2, h.3, h.4, h.5⟩, append_nil _⟩
  | case3 r => exact ⟨(append_nil input).symm ▸ h, by simp [samples]⟩

/-! ### Pieces cut anywhere -/

theorem samples_append (bs more : List UInt8) :
    samples (bs ++ more) = samples bs ++ samples ((oddByte bs).toList ++ more) ∧
      oddByte (bs ++ more) = oddByte ((oddByte bs).toList ++ more) := by
  fun_induction oddByte bs with
  | case1 low high rest ih => simpa [samples, oddByte] using ih
  | case2 low => exact ⟨rfl, rfl⟩
  | case3 => exact ⟨rfl, rfl⟩

theorem push_eq (r : Resampler) (bs : List UInt8) :
    r.push taps bs = { r with carry := none }.pushPairs taps (r.carry.toList ++ bs) := by
  obtain ⟨history, base, consumed, nextOut, carry⟩ := r
  cases carry with
  | none => rfl
  | some low => cases bs <;> rfl

/-- The pieces come to the whole. -/
theorem pushAll_advances (ht : taps.length = tapCount) (pieces : List (List UInt8)) :
    ∀ (bs : List UInt8) (r : Resampler), Keeps (samples bs) (oddByte bs) r →
      Advances taps (samples bs) (samples (bs ++ pieces.flatten))
        (oddByte (bs ++ pieces.flatten)) (r.pushAll taps pieces) := by
  induction pieces with
  | nil =>
    intro bs r h
    rw [flatten_nil, append_nil]
    exact ⟨h, append_nil _⟩
  | cons piece pieces ih =>
    intro bs r h
    have h₁ := pushPairs_advances ht (r.carry.toList ++ piece)
      (r := { r with carry := none }) ⟨rfl, h.2, h.3, h.4, h.5⟩
    obtain ⟨hs, ho⟩ := samples_append bs piece
    rw [← push_eq, h.carry, ← hs, ← ho] at h₁
    have h₂ := ih _ _ h₁.keeps
    rw [append_assoc, ← flatten_cons] at h₂
    exact ⟨h₂.keeps, by rw [pushAll, ← append_assoc, h₁.outs]; exact h₂.outs⟩

/-- **The streaming resampler is the filter of the whole signal**, however the bytes are cut. -/
theorem pushAll_filters [IsStrictOrderedRing K] (taps : Fin tapCount → K)
    (pieces : List (List UInt8)) :
    let input := samples pieces.flatten
    let (r, outs) := Resampler.new.pushAll (ofFn taps) pieces
    (∀ low high, IsWord low high (ofLeBytes low high)) ∧
    outs.length = (2 * input.length + 2) / 3 ∧
    (∀ m sample, outs[m]? = some sample → IsSample (filterSum (ofFn taps) input m) sample) ∧
    r.carry = oddByte pieces.flatten ∧
    r.history = input.drop r.base ∧
    (∀ m k, r.nextOut ≤ m → k < tapCount → (3 * m - k) % 2 = 0 → r.base ≤ (3 * m - k) / 2) ∧
    r.history.length + 1 ≤ tapCount / 2 + 2 := by
  obtain ⟨h, ho⟩ := pushAll_advances (length_ofFn (f := taps)) pieces [] Resampler.new
    ⟨rfl, rfl, rfl, rfl, rfl⟩
  have ho : (Resampler.new.pushAll (ofFn taps) pieces).2 = outputs (ofFn taps) _ := ho
  refine ⟨ofLeBytes_isWord, ?_, fun m sample hs => ?_, h.carry, h.history,
    fun m k hm hk hev => ?_, ?_⟩
  · rw [ho, outputs, length_map, length_range]
    rfl
  · rw [ho, outputs, getElem?_map, Option.map_eq_some_iff] at hs
    obtain ⟨i, hi, rfl⟩ := hs
    obtain ⟨-, rfl⟩ := List.getElem?_eq_some_iff.mp hi
    rw [getElem_range]
    exact roundClamp_isSample _
  · rw [h.base]
    exact oldest_le hm hk hev
  · rw [h.history, length_drop, h.base, h.nextOut]
    unfold oldest tapCount outCount
    omega

/-- A sample cut in two and an odd byte behind the second one. -/
theorem pushAll_filters_cut :
    let taps := fun k : Fin tapCount => if k.1 = 0 then mkRat 1 2 else 0
    let (r, outs) := Resampler.new.pushAll (ofFn taps) [[1], [0, 253, 255, 7]]
    outs.length = 2 ∧ r.carry = some 7 ∧
      ∀ m sample, outs[m]? = some sample → IsSample (filterSum (ofFn taps) [1, -3] m) sample := by
  intro taps
  have hin : samples [[1], [0, 253, 255, 7]].flatten = [1, -3] := by decide
  obtain ⟨-, hl, hs, hc, -⟩ := pushAll_filters taps [[1], [0, 253, 255, 7]]
  rw [hin] at hl hs
  exact ⟨hl, hc, hs⟩

end ModelProxy.Stt
