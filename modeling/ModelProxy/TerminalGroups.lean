import ModelProxy.CleanAgreement
import ModelProxy.MaskPlacement

/-! # Line feeds and the terminal parser

A line feed in the text a terminal shows comes from the byte of one.  Read in the ground
state it ends a group: it is shown, and the parser and the decoder stand as if nothing had
been read before but the start of the stream.
-/
namespace ModelProxy.Terminal
open VtState TerminalByteState List

/-! ## Line feeds in the terminal's text -/

/-- The decoder is on a boundary, or inside a character that it can complete and that no ASCII
byte goes on with. -/
def TerminalByteState.Proper (s : TerminalByteState) : Prop :=
  ∃ d, Stands s.utf8 d ∧ ModelProxy.Utf8.Sound d ∧ 0x80 ≤ d.lower

variable {p : VtState × Bool} {c : Char} {b : UInt8}

section LineFeeds
variable {s : TerminalByteState}

theorem proper_default : default.Proper :=
  ⟨.idle, .idle, ModelProxy.Utf8.sound_idle, le_rfl⟩

theorem TerminalByteState.Proper.decode (h : s.Proper) (b : UInt8) :
    (s.decode b).1.Proper := by
  obtain ⟨d, hs, hso, -⟩ := h
  exact ⟨_, (reads_decode hs b).stands, (ModelProxy.Utf8.step_sound hso b).1,
    ModelProxy.Utf8.step_lower d b⟩

/-- A character that is kept has the code that was read, and is shown or ends a line. -/
theorem mem_readItem {item : Option ℕ} (h : c ∈ (readItem p item).2) :
    c.toNat = item.getD 0xfffd ∧ (Redact.Shown c ∨ lineControl c.toNat = true) := by
  unfold readItem code at h
  dsimp only at h
  split at h
  · cases h
  split at h
  next hkp =>
    have hcd : c.toNat = item.getD 0xfffd := by
      unfold charFromU32 at h
      by_cases hvd : (item.getD 0xfffd).isValidChar
      · rw [dif_pos hvd, Option.toList_some, mem_singleton] at h
        rw [h]
        rfl
      · rw [dif_neg hvd] at h
        cases h
    refine ⟨hcd, ?_⟩
    rw [← hcd, Bool.or_eq_true, Bool.and_eq_true, Bool.and_eq_true] at hkp
    rcases hkp with ⟨-, hp⟩ | ⟨-, hc⟩
    · exact .inl (printable_iff.mp hp)
    · exact .inr hc
  · cases h

theorem mem_run_readItem {xs : List (Option ℕ)} (h : c ∈ (Transducer.run readItem p xs).2) :
    ∃ item ∈ xs, c.toNat = item.getD 0xfffd ∧
      (Redact.Shown c ∨ lineControl c.toNat = true) := by
  induction xs generalizing p with
  | nil => cases h
  | cons item xs ih =>
    rcases mem_append.mp h with h | h
    · exact ⟨item, by simp, mem_readItem h⟩
    · obtain ⟨item', hi', hc⟩ := ih h
      exact ⟨item', by simp [hi'], hc⟩

/-- **Only the byte of a line feed is shown as one.** -/
theorem lf_of_mem_decode (h : s.Proper) (hm : '\n' ∈ (s.decode b).2) : b = lfByte := by
  obtain ⟨d, hs, hso, -⟩ := h
  rw [(reads_decode hs b).text] at hm
  obtain ⟨item, hi, hcd, -⟩ := mem_run_readItem hm
  cases item with
  | none => cases hcd
  | some v =>
    have hv : v = 10 := hcd.symm
    subst hv
    have hby := ModelProxy.Utf8.step_ascii hso hi (by decide)
    exact UInt8.toNat_inj.mp hby

/-- What is cleaned is shown, or a tab or a line end. -/
theorem shown_of_mem_decode (h : s.Proper) (hm : c ∈ (s.decode b).2) :
    Redact.Shown c ∨ lineControl c.toNat = true := by
  obtain ⟨d, hs, -⟩ := h
  rw [(reads_decode hs b).text] at hm
  obtain ⟨item, -, -, hsh⟩ := mem_run_readItem hm
  exact hsh

/-- A line end leaves the parser where it is. -/
theorem code_lineEnd (s : TerminalByteState) {cp : ℕ} (h : cp = 10 ∨ cp = 13) :
    s.code cp = ({ s with decodedAny := true },
      if s.state.printsLineControls then [Char.ofNat cp] else []) := by
  have hnx : nextState s.state cp = s.state := by
    rcases h with rfl | rfl <;> simp [nextState, anywhereTransition, isExecutable]
  have hch : (charFromU32 cp).toList = [Char.ofNat cp] := by
    rcases h with rfl | rfl <;> rfl
  have hc : lineControl cp = true := by
    rcases h with rfl | rfl <;> rfl
  have hp : printable cp = false := by
    rcases h with rfl | rfl <;> rfl
  have hmk : decide (cp = 0xfeff) = false := by
    rcases h with rfl | rfl <;> rfl
  simp [TerminalByteState.code, hnx, hch, hc, hp, hmk]

/-- **A line end is read on a character boundary**: it cuts short what it finds begun, and is
shown if the parser then shows line ends. -/
theorem decode_lineEnd (h : s.Proper) (b : UInt8) (hby : b.toNat = 10 ∨ b.toNat = 13) :
    ∃ st cut, s.decode b = (⟨st, true, .idle⟩,
        cut ++ if st.printsLineControls then [Char.ofNat b.toNat] else []) ∧
      '\n' ∉ cut ∧ (s.utf8 = .idle → st = s.state ∧ cut = []) := by
  obtain ⟨d, hs, -, hl⟩ := h
  have hid (s : TerminalByteState) : s.decodeIdle b = s.code b.toNat := by
    unfold decodeIdle
    rw [if_pos (by omega)]
  obtain ⟨st, decodedAny, utf8⟩ := s
  cases hs with
  | idle =>
    refine ⟨st, [], ?_, not_mem_nil, fun _ => ⟨rfl, rfl⟩⟩
    exact (hid _).trans (code_lineEnd _ hby)
  | @inside rem codePoint lower upper seen hr =>
    have hw : b.toNat < lower ∨ upper < b.toNat := by
      have hge : 0x80 ≤ lower := hl
      omega
    have hrd : decode ⟨st, decodedAny, .partialChar rem codePoint lower upper⟩ b =
        ((((mk st decodedAny .idle).code 0xfffd).1.code b.toNat).1,
          ((mk st decodedAny .idle).code 0xfffd).2 ++
            (((mk st decodedAny .idle).code 0xfffd).1.code b.toNat).2) := by
      simp only [decode]
      rw [if_pos hw, hid]
    rw [hrd, code_lineEnd _ hby, code_eq]
    refine ⟨_, _, rfl, fun hm => ?_, fun hut => by cases hut⟩
    obtain ⟨hcd, -⟩ := mem_readItem hm
    cases hcd

/-- The state behind a line feed that ends a group. -/
def afterGroup : TerminalByteState := ⟨ground, true, .idle⟩

/-- A line feed on which the parser is in its ground state is shown, behind whatever character
it cuts short. -/
theorem decode_lf (h : s.Proper) (hnd : (s.decode lfByte).1.state = ground) :
    (s.decode lfByte).1 = afterGroup ∧ ∃ cut, (s.decode lfByte).2 = cut ++ ['\n'] ∧ '\n' ∉ cut := by
  obtain ⟨st, cut, hrd, hc, -⟩ := decode_lineEnd h lfByte (.inl rfl)
  rw [hrd] at hnd ⊢
  obtain rfl : st = ground := hnd
  exact ⟨rfl, cut, rfl, hc⟩

/-- A line feed on a boundary stays on it. -/
theorem atBoundary_lf (h : s.atBoundary = true) : (s.decode lfByte).1.atBoundary = true := by
  obtain ⟨hg, hid⟩ := of_decide_eq_true h
  obtain ⟨st, decodedAny, utf8⟩ := s
  obtain rfl : st = ground := hg
  obtain rfl : utf8 = .idle := hid
  cases decodedAny <;> rfl

/-- The end of the stream is no line feed. -/
theorem lf_notMem_finishClean (h : s.Proper) : '\n' ∉ s.finishClean.2 := by
  intro hm
  obtain ⟨d, hs, -, -⟩ := h
  rw [finishClean_text hs] at hm
  obtain ⟨item, hi, hcd, -⟩ := mem_run_readItem hm
  unfold ModelProxy.Utf8.finish at hi
  split at hi
  · cases hi
  · rw [mem_singleton.mp hi] at hcd
    cases hcd

end LineFeeds

end ModelProxy.Terminal
