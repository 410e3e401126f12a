import Mathlib.Data.List.GetD
import Mathlib.Order.Bounds.Basic
import ModelProxy.CleanAgreement

/-! # The rolling tail

Both captures drop bytes from the front of a tail until it is short enough and the parser,
run over the dropped bytes, is on a boundary.  However the stream is cut, what is left is
the suffix that starts at the least boundary no more than `max` bytes from the end.
-/
namespace ModelProxy.Terminal
open CommandOutput hiding dcsPassthrough ground

open VtState List TerminalByteState

/-! ## Trimming, for any parser -/

section
variable {σ : Type} (feed : σ → UInt8 → σ) (onBoundary : σ → Bool)

/-- Drop bytes until at most `max` are left and the parser is on a boundary. -/
def trim (max : ℕ) : List UInt8 → σ → List UInt8 × σ
  | [], s => ([], s)
  | byte :: tail, s =>
    if decide (tail.length + 1 ≤ max) && onBoundary s then (byte :: tail, s)
    else trim max tail (feed s byte)

/-- The parser after the first `p` bytes. -/
def after (start : σ) (stream : List UInt8) (p : ℕ) : σ := (stream.take p).foldl feed start

/-- A tail may start at `p`. -/
def StartsAt (start : σ) (max : ℕ) (stream : List UInt8) (p : ℕ) : Prop :=
  stream.length ≤ p + max ∧ p ≤ stream.length ∧ onBoundary (after feed start stream p) = true

/-- The suffix at the least position a tail may start at; empty when there is none. -/
def RollingSuffix (start : σ) (max : ℕ) (stream tail : List UInt8) : Prop :=
  (∃ p, IsLeast { p | StartsAt feed onBoundary start max stream p } p ∧ tail = stream.drop p) ∨
    (∀ p, ¬ StartsAt feed onBoundary start max stream p) ∧ tail = []

/-- Chunk after chunk: append, then trim. -/
def trimChunks (max : ℕ) (chunks : List (List UInt8)) (start : σ) : List UInt8 × σ :=
  chunks.foldl (fun tail chunk => trim feed onBoundary max (tail.1 ++ chunk) tail.2) ([], start)

variable {feed onBoundary} {st : σ} {max : ℕ} {str : List UInt8}

variable {p : ℕ} {tail : List UInt8 × σ}

theorem after_succ (hp : p < str.length) :
    after feed st str (p + 1) = feed (after feed st str p) str[p] := by
  unfold after
  rw [take_succ_eq_append_getElem hp, foldl_append]
  rfl

/-- Where a tail stands: everything before `p` was dropped, and no tail may start there. -/
structure Standing (feed : σ → UInt8 → σ) (onBoundary : σ → Bool) (start : σ) (max : ℕ)
    (stream : List UInt8) (p : ℕ) (tail : List UInt8 × σ) : Prop where
  inside : p ≤ stream.length
  eq : tail = (stream.drop p, after feed start stream p)
  passed : ∀ q, q < p → ¬ StartsAt feed onBoundary start max stream q

/-- Trimming leaves the tail at a place to start. -/
theorem trim_standing (h : Standing feed onBoundary st max str p tail) :
    ∃ p', Standing feed onBoundary st max str p' (trim feed onBoundary max tail.1 tail.2) ∧
      (p' = str.length ∨ StartsAt feed onBoundary st max str p') := by
  obtain ⟨hp, rfl, hs⟩ := h
  induction hl : str.length - p generalizing p with
  | zero =>
    have he : p = str.length := by omega
    refine ⟨p, ⟨hp, ?_, hs⟩, .inl he⟩
    simp [he, trim]
  | succ more ih =>
    have hlt : p < str.length := by omega
    rw [drop_eq_getElem_cons hlt, trim]
    by_cases hst : StartsAt feed onBoundary st max str p
    · refine ⟨p, ⟨hp, ?_, hs⟩, .inr hst⟩
      have hh : (str.drop (p + 1)).length + 1 ≤ max := by
        rw [length_drop]
        have := hst.1
        omega
      simp only [hh, hst.2.2, decide_true, Bool.and_self, if_true]
      rw [drop_eq_getElem_cons hlt]
    · have hgo : ¬ (decide ((str.drop (p + 1)).length + 1 ≤ max) &&
          onBoundary (after feed st str p)) = true := by
        rw [Bool.and_eq_true, decide_eq_true_eq, length_drop]
        exact fun hbt => hst ⟨by omega, hp, hbt.2⟩
      have hnx : feed (after feed st str p) str[p] =
          after feed st str (p + 1) := (after_succ hlt).symm
      rw [if_neg hgo, hnx]
      refine ih (by omega) (fun q hq => ?_) (by omega)
      rcases Nat.lt_succ_iff_lt_or_eq.mp hq with hq | rfl
      · exact hs q hq
      · exact hst

/-- More bytes move no boundary and only raise the least start. -/
theorem Standing.extend (chunk : List UInt8) (h : Standing feed onBoundary st max str p tail) :
    Standing feed onBoundary st max (str ++ chunk) p (tail.1 ++ chunk, tail.2) := by
  obtain ⟨hp, rfl, hs⟩ := h
  have ha : ∀ q, q ≤ str.length →
      after feed st (str ++ chunk) q = after feed st str q := fun q hq => by
    simp [after, take_append_of_le_length hq]
  refine ⟨by simp; omega, ?_, fun q hq ht => hs q hq ?_⟩
  · rw [ha p hp, drop_append_of_le_length hp]
  · have hl : (str ++ chunk).length = str.length + chunk.length := length_append
    obtain ⟨hm, -, hbd⟩ := ht
    rw [ha q (by omega)] at hbd
    exact ⟨by omega, by omega, hbd⟩

/-- So does any run of pieces. -/
theorem foldl_standing (cs : List (List UInt8)) (h : Standing feed onBoundary st max str p tail)
    (he : p = str.length ∨ StartsAt feed onBoundary st max str p) :
    ∃ p', Standing feed onBoundary st max (str ++ cs.flatten) p'
        (cs.foldl (fun tail chunk => trim feed onBoundary max (tail.1 ++ chunk) tail.2) tail) ∧
      (p' = (str ++ cs.flatten).length ∨
        StartsAt feed onBoundary st max (str ++ cs.flatten) p') := by
  induction cs generalizing str p tail with
  | nil => exact ⟨p, by simpa using ⟨h, he⟩⟩
  | cons chunk cs ih =>
    obtain ⟨q, hq, hqn⟩ := trim_standing (h.extend chunk)
    rw [flatten_cons, ← append_assoc, foldl_cons]
    exact ih hq hqn

/-- **However a stream is cut, trimming leaves its rolling suffix.** -/
theorem trimChunks_suffix (cs : List (List UInt8)) :
    RollingSuffix feed onBoundary st max cs.flatten
      (trimChunks feed onBoundary max cs st).1 := by
  have hst : Standing feed onBoundary st max [] 0 ([], st) :=
    ⟨le_refl _, rfl, fun q hq => absurd hq (Nat.not_lt_zero q)⟩
  obtain ⟨p, hp, he⟩ := foldl_standing cs hst (.inl rfl)
  unfold trimChunks
  rw [hp.eq]
  have hl : StartsAt feed onBoundary st max cs.flatten p →
      IsLeast { p | StartsAt feed onBoundary st max cs.flatten p } p := fun hs =>
    ⟨hs, fun q hq => Nat.le_of_not_lt fun hlt => hp.passed q hlt hq⟩
  by_cases hs : StartsAt feed onBoundary st max cs.flatten p
  · exact .inl ⟨p, hl hs, rfl⟩
  · have hla : p = cs.flatten.length := he.resolve_right hs
    refine .inr ⟨fun q hq => ?_, by simp [hla]⟩
    rcases Nat.lt_or_ge q p with hlt | hge
    · exact hp.passed q hlt hq
    · exact hs ((le_antisymm (hq.2.1.trans_eq hla.symm) hge) ▸ hq)

/-- The suffix depends on where the boundaries are, not on the parser that finds them. -/
theorem RollingSuffix.congr {τ : Type} {feed' : τ → UInt8 → τ} {onBoundary' : τ → Bool}
    {start' : τ} {tail : List UInt8}
    (h : ∀ p, onBoundary (after feed st str p) = onBoundary' (after feed' start' str p))
    (hs : RollingSuffix feed onBoundary st max str tail) :
    RollingSuffix feed' onBoundary' start' max str tail := by
  have ht : StartsAt feed onBoundary st max str =
      StartsAt feed' onBoundary' start' max str := by
    funext p
    simp only [StartsAt, h p]
  unfold RollingSuffix at hs ⊢
  rwa [ht] at hs

end

/-! ## The server's automaton -/

variable {s : TerminalByteState} {n decoder : ℕ}

theorem getD_flatMap_range {α : Type} (rows : ℕ → List α) (d : α) {width i j : ℕ}
    (hw : ∀ i, (rows i).length = width) (hi : i < n) (hj : j < width) :
    ((range n).flatMap rows).getD (i * width + j) d = (rows i).getD j d := by
  have hl : ∀ n, ((range n).flatMap rows).length = n * width := fun n => by
    simp [length_flatMap, hw]
  induction n with
  | zero => omega
  | succ n ih =>
    rw [range_succ, flatMap_append, flatMap_singleton]
    rcases Nat.lt_succ_iff_lt_or_eq.mp hi with hlt | rfl
    · have hin : i * width + j < n * width :=
        calc i * width + j < (i + 1) * width := by rw [Nat.succ_mul]; omega
          _ ≤ n * width := Nat.mul_le_mul_right width hlt
      rw [getD_append _ _ _ _ (by rwa [hl]), ih hlt]
    · rw [getD_append_right _ _ _ _ (by rw [hl]; omega), hl, Nat.add_sub_cancel_left]

/-- The table holds the automaton's steps. -/
theorem byteTransition_eq {parser b : ℕ} (hp : parser < 14) (hd : decoder < 9) (hb : b < 256) :
    byteTransition (encodeState (parser, decoder)) b =
      encodeState (stepByte parser decoder b) := by
  have hi : encodeState (parser, decoder) * 256 + b =
      parser * (9 * 256) + (decoder * 256 + b) := by
    simp only [encodeState, decoderStates]
    omega
  have hr : parser < CommandOutput.dcsPassthrough + 1 := hp
  have hc : decoder < decoderStates := hd
  unfold byteTransition buildByteTransitions
  rw [hi, getD_flatMap_range _ _ (fun _ => by simp [decoderStates]) hr (by omega),
    getD_flatMap_range _ _ (fun _ => by simp) hc hb]
  simp [hb]

/-- The server's name for where the node's decoder stands. -/
inductive Substate : Utf8 → ℕ → Prop
  | idle : Substate .idle CommandOutput.decNone
  | c2 : Substate (.partialChar 1 2 0x80 0xbf) CommandOutput.decC2
  | need1 {codePoint : ℕ} : 3 ≤ codePoint →
      Substate (.partialChar 1 codePoint 0x80 0xbf) CommandOutput.decNeed1
  | need2 {codePoint : ℕ} : 1 ≤ codePoint →
      Substate (.partialChar 2 codePoint 0x80 0xbf) CommandOutput.decNeed2
  | need3 {codePoint : ℕ} : 1 ≤ codePoint →
      Substate (.partialChar 3 codePoint 0x80 0xbf) CommandOutput.decNeed3
  | e0 : Substate (.partialChar 2 0 0xa0 0xbf) CommandOutput.decE0
  | ed : Substate (.partialChar 2 13 0x80 0x9f) CommandOutput.decED
  | f0 : Substate (.partialChar 3 0 0x90 0xbf) CommandOutput.decF0
  | f4 : Substate (.partialChar 3 4 0x80 0x8f) CommandOutput.decF4

/-- The server's state is the node's. -/
structure Tracks (s : TerminalByteState) (state : ℕ × ℕ) : Prop where
  parser : state.1 = s.state.number
  decoder : Substate s.utf8 state.2
  /-- Nothing decoded yet: the parser has not moved, so a byte order mark moves it neither. -/
  fresh : s.decodedAny = false → s.state = ground

theorem number_lt (st : VtState) : st.number < 14 := by
  cases st <;> decide

theorem Substate.lt {utf8 : Utf8} (h : Substate utf8 decoder) : decoder < 9 := by
  cases h <;> decide

theorem code_state (hfr : s.decodedAny = false → s.state = ground) (cp : ℕ) :
    (s.code cp).1 = ⟨nextState s.state cp, true, s.utf8⟩ := by
  unfold TerminalByteState.code
  by_cases hmk : (!s.decodedAny && decide (cp = 0xfeff)) = true
  · simp only [hmk, if_true]
    simp only [Bool.and_eq_true, Bool.not_eq_true', decide_eq_true_eq] at hmk
    rw [hfr hmk.1, hmk.2, nextState_ground (by decide)]
  · simp only [hmk]
    rfl

theorem tracks_code {cp cp' : ℕ} (hfr : s.decodedAny = false → s.state = ground)
    (hd : Substate s.utf8 decoder) (hcd : nextState s.state cp = nextState s.state cp') :
    Tracks (s.code cp).1 (CommandOutput.nextState s.state.number cp', decoder) := by
  rw [code_state hfr]
  exact ⟨by rw [nextState_number, hcd], hd, fun h => absurd h (by simp)⟩

theorem decoderAfterLead_cases (b : ℕ) :
    (0xc3 ≤ b ∧ b ≤ 0xdf → decoderAfterLead b = some decNeed1) ∧
    (0xe1 ≤ b ∧ b ≤ 0xef ∧ b ≠ 0xed → decoderAfterLead b = some decNeed2) ∧
    (0xf1 ≤ b ∧ b ≤ 0xf3 → decoderAfterLead b = some decNeed3) ∧
    (b < 0xc2 ∨ 0xdf < b ∧ b < 0xe0 ∨ 0xf4 < b → decoderAfterLead b = none) := by
  unfold decoderAfterLead
  refine ⟨fun h => ?_, fun h => ?_, fun h => ?_, fun h => ?_⟩ <;>
    split_ifs <;> first | rfl | omega

/-- A lead byte moves the decoder only; anything else is a code point. -/
theorem tracks_lead (b : ℕ) {utf8 : Utf8} (hfr : s.decodedAny = false → s.state = ground)
    (ha : decoderAfterLead b = some decoder) (h : Substate utf8 decoder) :
    Tracks { s with utf8 := utf8 } (match decoderAfterLead b with
      | none => (CommandOutput.nextState s.state.number CommandOutput.nonAscii, decNone)
      | some lead => (s.state.number, lead)) := by
  rw [ha]
  exact ⟨rfl, h, hfr⟩

/-- The boundary automaton follows the reader. -/
theorem tracks_stepBoundary {byte : UInt8} (hid : s.utf8 = .idle)
    (hfr : s.decodedAny = false → s.state = ground) :
    Tracks (s.decodeIdle byte).1 (CommandOutput.stepBoundary s.state.number byte.toNat) := by
  have hby : byte.toNat < 256 := byte.toNat_lt
  have hno : Substate s.utf8 CommandOutput.decNone := hid ▸ .idle
  generalize hb : byte.toNat = b at hby
  unfold decodeIdle CommandOutput.stepBoundary
  simp only [hb]
  by_cases h7f : b ≤ 0x7f
  · rw [if_pos h7f, if_pos (Nat.lt_succ_of_le h7f)]
    exact tracks_code hfr hno rfl
  rw [if_neg h7f, if_neg fun h => h7f (Nat.le_of_lt_succ h)]
  have ha := decoderAfterLead_cases b
  by_cases h2 : 0xc2 ≤ b ∧ b ≤ 0xdf
  · rw [if_pos h2]
    rcases eq_or_ne b 0xc2 with rfl | hc2
    · exact tracks_lead 0xc2 hfr rfl .c2
    · exact tracks_lead b hfr (ha.1 (by omega)) (.need1 (by omega))
  rw [if_neg h2]
  by_cases h3 : 0xe0 ≤ b ∧ b ≤ 0xef
  · rw [if_pos h3]
    rcases eq_or_ne b 0xe0 with rfl | he0
    · exact tracks_lead 0xe0 hfr rfl .e0
    rcases eq_or_ne b 0xed with rfl | hed
    · exact tracks_lead 0xed hfr rfl .ed
    rw [if_neg he0, if_neg hed]
    exact tracks_lead b hfr (ha.2.1 (by omega)) (.need2 (by omega))
  rw [if_neg h3]
  by_cases h4 : 0xf0 ≤ b ∧ b ≤ 0xf4
  · rw [if_pos h4]
    rcases eq_or_ne b 0xf0 with rfl | hf0
    · exact tracks_lead 0xf0 hfr rfl .f0
    rcases eq_or_ne b 0xf4 with rfl | hf4
    · exact tracks_lead 0xf4 hfr rfl .f4
    rw [if_neg hf0, if_neg hf4]
    exact tracks_lead b hfr (ha.2.2.1 (by omega)) (.need3 (by omega))
  rw [if_neg h4, ha.2.2.2 (by omega)]
  exact tracks_code hfr hno rfl

/-- A byte inside a character: out of range it cuts the character short, in range it ends
the character or goes on with it. -/
theorem tracks_continue {st : VtState} {decodedAny : Bool}
    {rem cp lower upper next : ℕ} (hfr : decodedAny = false → st = ground)
    (byte : UInt8) (hd : decoder ≠ CommandOutput.decNone)
    (hr : CommandOutput.decoderRange decoder = (lower, upper, next))
    (hla : rem = 1 → next = CommandOutput.decNone ∧ ∀ b, lower ≤ b → b ≤ upper →
      nextState st (cp * 64 + b % 64) =
        nextState st
          (if decoder = CommandOutput.decC2 ∧ b ≤ 0x9f then b else CommandOutput.nonAscii))
    (hmo : rem ≠ 1 → next ≠ CommandOutput.decNone ∧ ∀ b, lower ≤ b → b ≤ upper →
      Substate (.partialChar (rem - 1) (cp * 64 + b % 64) 0x80 0xbf) next) :
    Tracks (feed ⟨st, decodedAny, .partialChar rem cp lower upper⟩
        byte) (CommandOutput.stepByte st.number decoder byte.toNat) := by
  unfold feed decode CommandOutput.stepByte
  rw [if_neg hd, hr]
  by_cases hc : byte.toNat < lower ∨ upper < byte.toNat
  · simp only [if_pos hc]
    rw [code_state hfr, nextState_number]
    exact tracks_stepBoundary rfl fun h => absurd h (by simp)
  · simp only [if_neg hc]
    obtain ⟨hl, hhi⟩ : lower ≤ byte.toNat ∧ byte.toNat ≤ upper := by omega
    by_cases ho : rem = 1
    · obtain ⟨rfl, hcd⟩ := hla ho
      rw [if_pos ho, if_neg (not_not.mpr rfl)]
      exact tracks_code hfr .idle (hcd _ hl hhi)
    · obtain ⟨hnx, hs⟩ := hmo ho
      rw [if_neg ho, if_pos hnx]
      exact ⟨rfl, hs _ hl hhi, hfr⟩

/-- **One byte moves both automata alike.** -/
theorem tracks_stepByte {st : ℕ × ℕ} (h : Tracks s st) (byte : UInt8) :
    Tracks (s.feed byte) (stepByte st.1 st.2 byte.toNat) := by
  obtain ⟨parser, decoder⟩ := st
  obtain ⟨st, decodedAny, utf8⟩ := s
  obtain ⟨rfl, hd, hfr⟩ := h
  change Tracks _ (stepByte st.number decoder byte.toNat)
  have hge : ∀ {cp : ℕ}, 0xa0 ≤ cp →
      nextState st cp = nextState st nonAscii := fun hcd => by
    rw [nextState_of_ge st hcd, nextState_of_ge st (by decide)]
  cases hd with
  | idle => exact tracks_stepBoundary rfl hfr
  | c2 =>
    refine tracks_continue hfr byte (by decide) rfl (fun _ => ⟨rfl, fun b hl hhi => ?_⟩)
      (fun h => absurd rfl h)
    by_cases h9f : b ≤ 0x9f
    · rw [if_pos ⟨rfl, h9f⟩]
      congr 1
      omega
    · rw [if_neg fun h => h9f h.2]
      exact hge (by omega)
  | need1 hcd =>
    refine tracks_continue hfr byte (by decide) rfl (fun _ => ⟨rfl, fun b hl hhi => ?_⟩)
      (fun h => absurd rfl h)
    exact hge (by omega)
  | need2 hcd | e0 | ed =>
    exact tracks_continue hfr byte (by decide) rfl (fun h => absurd h (by decide))
      fun _ => ⟨by decide, fun b hl hhi => .need1 (by omega)⟩
  | need3 hcd | f0 | f4 =>
    exact tracks_continue hfr byte (by decide) rfl (fun h => absurd h (by decide))
      fun _ => ⟨by decide, fun b hl hhi => .need2 (by omega)⟩

/-- One load of the server's table. -/
def serverFeed (state : ℕ) (byte : UInt8) : ℕ := CommandOutput.byteTransition state byte.toNat

/-- The server's state as the table numbers it. -/
def Numbered (s : TerminalByteState) (n : ℕ) : Prop :=
  ∃ state, n = CommandOutput.encodeState state ∧ Tracks s state

theorem Numbered.feed (h : Numbered s n) (b : UInt8) :
    Numbered (s.feed b) (serverFeed n b) := by
  obtain ⟨st, rfl, h⟩ := h
  refine ⟨_, ?_, tracks_stepByte h b⟩
  exact byteTransition_eq (h.parser ▸ number_lt s.state) h.decoder.lt b.toNat_lt

theorem Numbered.onBoundary (h : Numbered s n) :
    s.atBoundary = decide (n = boundary) := by
  obtain ⟨⟨parser, decoder⟩, rfl, hp, hd, -⟩ := h
  have hid : s.utf8 = .idle ↔ decoder = 0 := by
    simp only at hd
    generalize hut : s.utf8 = utf8 at hd
    cases hd <;> simp [decNone, decC2, decNeed1, decNeed2, decNeed3, decE0, decED, decF0, decF4]
  have hg : s.state = ground ↔ parser = 0 := by
    simp only at hp
    rw [hp]
    exact number_ground.symm
  have hz : parser * 9 + decoder = 0 ↔ parser = 0 ∧ decoder = 0 := by omega
  simp only [atBoundary, hid, hg, encodeState, boundary, CommandOutput.ground, decNone,
    decoderStates, Nat.zero_mul, Nat.add_zero, hz]

theorem Numbered.start : Numbered .default boundary :=
  ⟨(0, 0), rfl, rfl, .idle, fun _ => rfl⟩

/-- Both automata see a boundary at the same positions of a stream. -/
theorem onBoundary_after (str : List UInt8) (p : ℕ) :
    (after feed .default str p).atBoundary =
      decide (after serverFeed boundary str p = boundary) := by
  have hr : ∀ (bs : List UInt8) {s : TerminalByteState} {n : ℕ}, Numbered s n →
      Numbered (bs.foldl feed s) (bs.foldl serverFeed n) := by
    intro bs
    induction bs with
    | nil => exact fun h => h
    | cons b bs ih => exact fun h => ih (h.feed b)
  exact (hr _ Numbered.start).onBoundary

/-! ## The two tails -/

/-- The node's rolling tail of a stream that comes in chunks. -/
def nodeTail (max : ℕ) (chunks : List (List UInt8)) : List UInt8 × TerminalByteState :=
  chunks.foldl (fun tail chunk => trimRollingTail max (tail.1 ++ chunk) tail.2) ([], .default)

/-- The server's. -/
def serverTail (max : ℕ) (chunks : List (List UInt8)) : List UInt8 × ℕ :=
  chunks.foldl (fun tail chunk => CommandOutput.appendRollingTail tail.1 chunk max tail.2)
    ([], CommandOutput.boundary)

theorem trimRollingTail_eq (max : ℕ) (tail : List UInt8) (s : TerminalByteState) :
    trimRollingTail max tail s =
      trim feed atBoundary max tail s := by
  induction tail generalizing s with
  | nil => rfl
  | cons b tail ih => rw [trimRollingTail, trim, ih]

/-- The server's automaton, as trimming sees it. -/
def serverTrim : ℕ → List UInt8 → ℕ → List UInt8 × ℕ :=
  trim serverFeed fun n => decide (n = CommandOutput.boundary)

/-- `consume` trims one of the two buffers; `rest` are the bytes that follow it. -/
theorem consume_trim (max : ℕ) {dropUntil : Int} (rest : List UInt8) {stop st' : ℕ} :
    ∀ (bs : List UInt8) (index st : ℕ),
    (∀ i r, i + r = index + bs.length → ((i : Int) < dropUntil ↔ max < r + rest.length)) →
    consume dropUntil bs index st = (stop, st') →
    index ≤ stop ∧
      (stop < index + bs.length ∧
          serverTrim max (bs ++ rest) st = (bs.drop (stop - index) ++ rest, st') ∨
        stop = index + bs.length ∧
          serverTrim max (bs ++ rest) st = serverTrim max rest st') := by
  intro bs
  induction bs with
  | nil =>
    intro index st _ hst
    cases hst
    exact ⟨le_refl _, .inr ⟨rfl, rfl⟩⟩
  | cons b bs ih =>
    intro index st hdr hst
    have hgo := hdr index (bs.length + 1) rfl
    have hsp : serverTrim max (b :: bs ++ rest) st =
        if decide ((bs ++ rest).length + 1 ≤ max) && decide (st = boundary)
        then (b :: bs ++ rest, st)
        else serverTrim max (bs ++ rest) (serverFeed st b) := rfl
    rw [consume] at hst
    by_cases hms : (index : Int) < dropUntil ∨ st ≠ boundary
    · rw [if_pos hms] at hst
      have hl : ∀ {i r}, i + r = index + 1 + bs.length →
          i + r = index + (b :: bs).length := fun h => by
        rw [length_cons]
        omega
      obtain ⟨hle, he⟩ := ih (index + 1) _ (fun i r hir => hdr i r (hl hir)) hst
      have hd : ¬ (decide ((bs ++ rest).length + 1 ≤ max) && decide (st = boundary)) = true := by
        rw [Bool.and_eq_true, decide_eq_true_eq, decide_eq_true_eq, length_append]
        rintro ⟨hs, hbd⟩
        rcases hms with hms | hms
        · have := hgo.mp hms
          omega
        · exact hms hbd
      rw [hsp, if_neg hd]
      refine ⟨by omega, he.imp (fun h => ⟨by simp; omega, ?_⟩) fun h => ⟨by simp; omega, h.2⟩⟩
      have hb : stop - index = stop - (index + 1) + 1 := by omega
      rw [hb, drop_succ_cons]
      exact h.2
    · rw [if_neg hms] at hst
      cases hst
      rw [not_or, not_not] at hms
      have hs : (bs ++ rest).length + 1 ≤ max := by
        rw [length_append]
        omega
      refine ⟨le_refl _, .inl ⟨by simp, ?_⟩⟩
      rw [hsp, decide_eq_true hs, decide_eq_true hms.2, Nat.sub_self]
      rfl

/-- **The server's append is a trim of the two buffers together.** -/
theorem appendRollingTail_eq (tail chunk : List UInt8) (max state : ℕ) :
    appendRollingTail tail chunk max state =
      serverTrim max (tail ++ chunk) state := by
  unfold appendRollingTail
  simp only
  generalize hdr : tail.length + chunk.length - max = mustDrop
  generalize htl : consume mustDrop tail 0 state = fromTail
  obtain ⟨stop, st'⟩ := fromTail
  obtain ⟨-, he⟩ := consume_trim max chunk tail 0 state (fun i r hir => by omega) htl
  rcases he with ⟨hlt, htm⟩ | ⟨ha, htm⟩
  · rw [Nat.zero_add] at hlt
    rw [if_pos hlt, htm, Nat.sub_zero]
  rw [if_neg (by simp [ha]), htm]
  generalize hc : consume ((mustDrop : Int) - tail.length) chunk 0 st' = fromChunk
  obtain ⟨stop', st''⟩ := fromChunk
  obtain ⟨-, he⟩ := consume_trim max [] chunk 0 st' (fun i r hir => by
    rw [length_nil]
    omega) hc
  rw [append_nil] at he
  rcases he with ⟨-, htm⟩ | ⟨rfl, htm⟩
  · rw [htm, Nat.sub_zero, append_nil]
  · rw [htm]
    simp [serverTrim, trim]

/-- The suffix at the least boundary of the node's parser. -/
abbrev TailOf : ℕ → List UInt8 → List UInt8 → Prop :=
  RollingSuffix TerminalByteState.feed TerminalByteState.atBoundary .default

theorem serverTail_suffix (max : ℕ) (cs : List (List UInt8)) :
    TailOf max cs.flatten (serverTail max cs).1 := by
  have hs : RollingSuffix serverFeed (fun n => decide (n = boundary))
      boundary max cs.flatten (serverTail max cs).1 := by
    unfold serverTail
    simp only [appendRollingTail_eq]
    exact trimChunks_suffix cs
  exact hs.congr fun p => (onBoundary_after cs.flatten p).symm

/-- **The rolling tail depends neither on the chunks nor on the implementation.** -/
theorem rollingTail_suffix (max : ℕ) (chunks : List (List UInt8)) :
    TailOf max chunks.flatten (serverTail max chunks).1 ∧
      TailOf max chunks.flatten (nodeTail max chunks).1 := by
  refine ⟨serverTail_suffix max chunks, ?_⟩
  unfold nodeTail
  simp only [trimRollingTail_eq]
  exact trimChunks_suffix chunks

end ModelProxy.Terminal
