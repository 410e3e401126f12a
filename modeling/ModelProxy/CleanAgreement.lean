import ModelProxy.CommandOutput
import ModelProxy.TerminalParse

/-! # The node and the server clean terminal output alike

The node decodes and parses one byte at a time; the server decodes everything first, walks
UTF-16 code units and filters controls afterwards.  Both parsers are one machine over code
points: a byte decoder writes the code points, and `visible` is what the parser keeps of
them.
-/
namespace ModelProxy.Terminal
open CommandOutput hiding ground oscString
open List TerminalByteState Transducer

/-! ## The parsers' states -/

/-- The server's number of a state. -/
def VtState.number : VtState → ℕ
  | .ground => 0 | .escape => 1 | .escapeIntermediate => 2
  | .csiEntry => 3 | .csiParam => 4 | .csiIntermediate => 5 | .csiIgnore => 6
  | .oscString => 7 | .ignoredString => 8
  | .dcsEntry => 9 | .dcsParam => 10 | .dcsIntermediate => 11 | .dcsIgnore => 12
  | .dcsPassthrough => 13

open VtState

section States
variable {state : VtState} {code : ℕ}

theorem number_ground : state.number = CommandOutput.ground ↔ state = ground := by
  cases state <;> simp [number, CommandOutput.ground]

theorem executesC0_number : executesC0 state.number = state.printsLineControls := by
  cases state <;> rfl

theorem anywhereTransition_number (code : ℕ) :
    CommandOutput.anywhereTransition code = (anywhereTransition code).map number := by
  unfold CommandOutput.anywhereTransition anywhereTransition
  split_ifs <;> first | rfl | omega

theorem printableTransition_number (hp : 0x20 ≤ code) :
    CommandOutput.printableTransition state.number code =
      (printableTransition state code).number := by
  have h20 : (0x20 ≤ code ∧ code ≤ 0x2f) ↔ code ≤ 0x2f := by omega
  cases state <;>
    simp only [printableTransition, apply_ite number, h20] <;>
    simp [CommandOutput.printableTransition, number, CommandOutput.ground, CommandOutput.escape,
      CommandOutput.escapeIntermediate,
      CommandOutput.csiEntry, CommandOutput.csiParam, CommandOutput.csiIntermediate,
      CommandOutput.csiIgnore, CommandOutput.oscString, CommandOutput.ignoredString,
      CommandOutput.dcsEntry, CommandOutput.dcsParam, CommandOutput.dcsIntermediate,
      CommandOutput.dcsIgnore, CommandOutput.dcsPassthrough]

theorem isExecutable_iff : isExecutable code = true ↔
    code ≤ 0x17 ∨ code = 0x19 ∨ 0x1c ≤ code ∧ code ≤ 0x1f := by
  simp [isExecutable, or_assoc]

/-- **The two parsers make the same moves.** -/
theorem nextState_number (state : VtState) (code : ℕ) :
    CommandOutput.nextState state.number code = (nextState state code).number := by
  unfold CommandOutput.nextState nextState
  rw [anywhereTransition_number]
  cases ha : anywhereTransition code with
  | some next => rfl
  | none =>
    have hec : CommandOutput.isExecutable code = isExecutable code := rfl
    have ho : state.number = CommandOutput.oscString ↔ state = oscString := by
      cases state <;> simp [number, CommandOutput.oscString]
    simp only [Option.map_none, hec, ho, number_ground]
    by_cases hx : isExecutable code = true
    · rw [if_pos hx, if_pos hx]
      split <;> rfl
    rw [if_neg hx, if_neg hx]
    by_cases hd : code = 0x7f
    · simp [hd]
    by_cases hg : state = ground
    · subst hg
      simp [hd, number, CommandOutput.ground]
    simp only [hd, hg, or_self, if_false]
    split
    · cases state <;> rfl
    have hp : 0x20 ≤ code := by
      rw [isExecutable_iff] at hx
      unfold anywhereTransition at ha
      split_ifs at ha
      omega
    exact printableTransition_number hp

theorem anywhereTransition_of_ge (h : 0xa0 ≤ code) : anywhereTransition code = none := by
  unfold anywhereTransition
  repeat rw [if_neg (by omega)]

/-- Beyond the controls only the state counts. -/
theorem nextState_of_ge (state : VtState) (h : 0xa0 ≤ code) :
    nextState state code = if state = ground then ground else nonAsciiTransition state := by
  have hx : isExecutable code = false := by
    rw [← Bool.not_eq_true, isExecutable_iff]
    omega
  unfold nextState
  rw [anywhereTransition_of_ge h]
  simp only [hx, Bool.false_eq_true, if_false, h, if_true]
  by_cases hg : state = ground
  · simp [hg]
  · have hd : code ≠ 0x7f := by omega
    simp [hg, hd]

theorem printable_iff : printable code = true ↔ 0x20 ≤ code ∧ code ≤ 0x7e ∨ 0xa0 ≤ code := by
  simp [printable]

theorem nextState_ground (h : printable code = true) : nextState ground code = ground := by
  rw [printable_iff] at h
  have ha : anywhereTransition code = none := by
    unfold anywhereTransition
    repeat rw [if_neg (by omega)]
  unfold nextState
  rw [ha]
  simp

end States

/-! ## What the parser keeps of code points -/

/-- What one code point adds to the text. -/
def kept (state : VtState) (code : ℕ) : List Char :=
  if (decide (state = ground) && printable code) ||
      (state.printsLineControls && lineControl code) then (charFromU32 code).toList
  else []

/-- The text kept of code points, after the first. -/
def visible : VtState → List ℕ → List Char
  | _, [] => []
  | state, code :: codes => kept state code ++ visible (nextState state code) codes

variable {code : ℕ} {d : Utf8.Decoder}

theorem charFromU32_valid (h : code.isValidChar) :
    ∃ c, charFromU32 code = some c ∧ c.toNat = code :=
  ⟨Char.ofNatAux code h, dif_pos h, rfl⟩

/-! ## The node: a decoder, then the parser -/

/-- One decoded item, by the parser's state and whether anything was decoded before. -/
def readItem : Transducer (VtState × Bool) (Option ℕ) Char := fun p item =>
  let read := (TerminalByteState.mk p.1 p.2 .idle).code (item.getD 0xfffd)
  ((read.1.state, read.1.decodedAny), read.2)

/-- The two spellings of where the decoder stands. -/
inductive Stands : Utf8 → Utf8.Decoder → Prop
  | idle : Stands .idle .idle
  | inside {remaining codePoint lower upper seen : ℕ} : remaining ≠ 0 →
      Stands (.partialChar remaining codePoint lower upper)
        ⟨codePoint, seen, seen + remaining, lower, upper⟩

/-- The parser's part of a state. -/
def TerminalByteState.reader (s : TerminalByteState) : VtState × Bool := (s.state, s.decodedAny)

section Decode
variable {s : TerminalByteState}

theorem code_eq (s : TerminalByteState) (code : ℕ) : s.code code =
    (⟨(readItem s.reader (some code)).1.1, (readItem s.reader (some code)).1.2, s.utf8⟩,
      (readItem s.reader (some code)).2) := by
  unfold readItem reader TerminalByteState.code
  dsimp only [Option.getD_some]
  split <;> rfl

/-- What a byte comes to: the decoder's place, the parser's, and the text kept. -/
structure Reads (read : TerminalByteState × List Char) (d : Utf8.Decoder) (p : VtState × Bool)
    (items : List (Option ℕ)) : Prop where
  stands : Stands read.1.utf8 d
  reader : read.1.reader = (Transducer.run readItem p items).1
  text : read.2 = (Transducer.run readItem p items).2

theorem reads_code (hs : s.utf8 = .idle) (code : ℕ) :
    Reads (s.code code) .idle s.reader [some code] := by
  rw [code_eq]
  exact ⟨hs ▸ .idle, rfl, (append_nil _).symm⟩

theorem reads_error (hs : s.utf8 = .idle) : Reads (s.code 0xfffd) .idle s.reader [none] :=
  have h := reads_code hs 0xfffd
  ⟨h.stands, h.reader, h.text⟩

theorem stands_after {needed bits lower upper : ℕ} (hn : needed ≠ 0) :
    Stands (.partialChar needed bits lower upper) (.after needed bits lower upper) := by
  have h : Stands (.partialChar needed bits lower upper) ⟨bits, 0, 0 + needed, lower, upper⟩ :=
    .inside hn
  rwa [Nat.zero_add] at h

theorem reads_decodeIdle (hs : s.utf8 = .idle) (b : UInt8) :
    Reads (s.decodeIdle b) (Utf8.lead b.toNat).1 s.reader (Utf8.lead b.toNat).2 := by
  unfold decodeIdle Utf8.lead
  by_cases ha : b.toNat ≤ 0x7f
  · have hld : b.toNat < 0x80 := by omega
    simp only [ha, hld, if_true]
    exact reads_code hs _
  have hld : ¬ b.toNat < 0x80 := by omega
  simp only [ha, hld, if_false]
  by_cases ht : 0xc2 ≤ b.toNat ∧ b.toNat ≤ 0xdf
  · simp only [ht, and_self, if_true]
    exact ⟨stands_after (by omega), rfl, rfl⟩
  by_cases hh : 0xe0 ≤ b.toNat ∧ b.toNat ≤ 0xef
  · simp only [ht, hh, and_self, if_true, if_false]
    exact ⟨stands_after (by omega), rfl, rfl⟩
  by_cases hfo : 0xf0 ≤ b.toNat ∧ b.toNat ≤ 0xf4
  · simp only [ht, hh, hfo, and_self, if_true, if_false]
    exact ⟨stands_after (by omega), rfl, rfl⟩
  · simp only [ht, hh, hfo, if_false]
    exact reads_error hs

/-- **A byte is decoded, then read.** -/
theorem reads_decode (hs : Stands s.utf8 d) (b : UInt8) :
    Reads (s.decode b) (Utf8.step d b).1 s.reader (Utf8.step d b).2 := by
  obtain ⟨state, decodedAny, utf8⟩ := s
  cases hs with
  | idle => exact reads_decodeIdle rfl b
  | @inside rem codePoint lower upper seen hr =>
    have hn : seen + rem ≠ 0 := by omega
    have hla : seen + 1 = seen + rem ↔ rem = 1 := by omega
    unfold decode Utf8.step
    simp only [hn, hla, if_false]
    split
    · -- a replacement, then the byte starts afresh
      have hc := reads_error (s := ⟨state, decodedAny, .idle⟩) rfl
      have hid : (code ⟨state, decodedAny, .idle⟩ 0xfffd).1.utf8 = .idle := by
        rw [code_eq]
      have ha := reads_decodeIdle hid b
      refine ⟨ha.stands, ha.reader, ?_⟩
      exact congrArg₂ (· ++ ·) (hc.text.trans (append_nil _)) ha.text
    · split
      · exact reads_code (s := ⟨state, decodedAny, .idle⟩) rfl _
      next hmo =>
      obtain ⟨more, rfl⟩ : ∃ more, rem = more + 1 := ⟨rem - 1, by omega⟩
      refine ⟨?_, rfl, rfl⟩
      have ht : Stands (.partialChar more (codePoint * 64 + b.toNat % 64) 0x80 0xbf)
          ⟨codePoint * 64 + b.toNat % 64, seen + 1, seen + 1 + more, 0x80, 0xbf⟩ :=
        .inside (by omega)
      rwa [show seen + 1 + more = seen + (more + 1) by omega] at ht

/-- The two decoders stand alike after any bytes. -/
theorem reads_run (hs : Stands s.utf8 d) (bs : List UInt8) :
    Reads (run decode s bs) (run Utf8.step d bs).1
      s.reader (run Utf8.step d bs).2 := by
  induction bs generalizing s d with
  | nil => exact ⟨hs, rfl, rfl⟩
  | cons b bs ih =>
    have hby := reads_decode hs b
    have hr := ih hby.stands
    rw [hby.reader] at hr
    refine ⟨hr.stands, ?_, ?_⟩
    · rw [run_cons Utf8.step, run_append]
      exact hr.reader
    · rw [run_cons Utf8.step, run_append, ← hr.text, ← hby.text]
      rfl

theorem finishClean_text (hs : Stands s.utf8 d) :
    s.finishClean.2 = (run readItem s.reader (Utf8.finish d)).2 := by
  obtain ⟨state, decodedAny, utf8⟩ := s
  cases hs with
  | idle => rfl
  | @inside rem code lower upper seen hr =>
    have hn : seen + rem ≠ 0 := by omega
    simp only [Utf8.finish, hn, if_false]
    exact (reads_error (s := ⟨state, decodedAny, .idle⟩) rfl).text

end Decode

/-- The node's text is what its parser reads of the decoded stream. -/
theorem cleanBytes_eq (stream : List UInt8) :
    cleanBytes stream = (run readItem (ground, false) (Utf8.decode stream)).2 := by
  have hr := reads_run (s := .default) Stands.idle stream
  unfold cleanBytes Utf8.decode
  dsimp only
  rw [run_append, finishClean_text hr.stands, hr.reader, hr.text]
  rfl

theorem readItem_later (state : VtState) (item : Option ℕ) :
    readItem (state, true) item =
      ((nextState state (item.getD 0xfffd), true), kept state (item.getD 0xfffd)) := rfl

theorem run_readItem (xs : List (Option ℕ)) (state : VtState) :
    (run readItem (state, true) xs).2 = visible state (xs.map (·.getD 0xfffd)) := by
  induction xs generalizing state with
  | nil => rfl
  | cons item xs ih => rw [run_cons, readItem_later, ih]; rfl

/-- **The node's text, by code points.** -/
theorem cleanBytes_visible (stream : List UInt8) : cleanBytes stream =
    visible ground (withoutByteOrderMark (lossyCodes stream)) := by
  rw [cleanBytes_eq]
  unfold lossyCodes
  cases Utf8.decode stream with
  | nil => rfl
  | cons item xs =>
    rw [map_cons, withoutByteOrderMark, run_cons]
    by_cases hmk : item.getD 0xfffd = 0xfeff
    · rw [if_pos hmk, ← run_readItem]
      have hf : readItem (ground, false) item = ((ground, true), []) := by
        simp [readItem, code, hmk]
      rw [hf]
      rfl
    · have hf : readItem (ground, false) item = readItem (ground, true) item := by
        simp [readItem, code, hmk]
      rw [if_neg hmk, hf, readItem_later, run_readItem]
      rfl

/-! ## The server: code units, then a filter -/

open CommandOutput (unitsOf textUnits textUnits_append stripDisallowedControls stripLoop Stripped)

theorem strip_append (a b : List ℕ) :
    stripDisallowedControls (a ++ b) = stripDisallowedControls a ++ stripDisallowedControls b :=
  filter_append ..

theorem strip_printable (h : printable code = true) : stripDisallowedControls [code] = [code] := by
  rw [printable_iff] at h
  refine filter_eq_self.mpr fun c hc => ?_
  rw [mem_singleton.mp hc]
  simp only [Bool.or_eq_true, Bool.not_eq_true', Bool.or_eq_false_iff, Bool.and_eq_false_iff,
    decide_eq_true_eq, decide_eq_false_iff_not]
  omega

section Loop
variable {code : ℕ} {v : VtState} {s : Stripped} {rest : List ℕ}

theorem textUnits_char (hvd : code.isValidChar) :
    textUnits (charFromU32 code).toList = unitsOf code := by
  obtain ⟨c, hc, hcd⟩ := charFromU32_valid hvd
  simp [hc, textUnits, hcd]

/-- What the loop makes of the units of one code point. -/
structure Stripping (v : VtState) (code : ℕ) (s s' : Stripped) : Prop where
  state : s'.state = (nextState v code).number
  text : stripDisallowedControls (s'.out ++ s'.run) =
    stripDisallowedControls (s.out ++ s.run) ++ textUnits (kept v code)

/-- A printed unit joins the run. -/
theorem stripLoop_printed (hs : s.state = VtState.ground.number) {u : ℕ} (h : printable u = true) :
    stripLoop (u :: rest) false s = stripLoop rest false { s with run := s.run ++ [u] } := by
  have hp : CommandOutput.printable u = true := h
  have hg : s.state = CommandOutput.ground := hs
  simp [stripLoop, hg, hp]

/-- A shown code is kept by both. -/
theorem stripping_printed (hvd : code.isValidChar) (hs : s.state = VtState.ground.number)
    (h : printable code = true) : ∃ s', stripLoop (unitsOf code ++ rest) false s =
      stripLoop rest false s' ∧ Stripping .ground code s s' := by
  have hkp : kept .ground code = (charFromU32 code).toList := by simp [kept, h]
  refine ⟨{ s with run := s.run ++ unitsOf code }, ?_, ?_, ?_⟩
  · unfold unitsOf
    split
    · exact stripLoop_printed hs h
    · have hhi : printable (0xd800 + (code - 0x10000) / 1024) = true := printable_iff.mpr (by omega)
      have hl : printable (0xdc00 + (code - 0x10000) % 1024) = true := printable_iff.mpr (by omega)
      rw [cons_append, stripLoop_printed hs hhi, singleton_append,
        stripLoop_printed (by exact hs) hl]
      simp
  · rw [nextState_ground h]
    exact hs
  · have hu : stripDisallowedControls (unitsOf code) = unitsOf code := by
      unfold unitsOf
      split
      · exact strip_printable h
      · rw [← singleton_append, strip_append, strip_printable (printable_iff.mpr (by omega)),
          strip_printable (printable_iff.mpr (by omega))]
    rw [hkp, textUnits_char hvd, ← append_assoc, strip_append, hu]

/-- A unit the parser reads. -/
theorem stripLoop_read (hs : s.state = v.number) {unit : ℕ}
    (h : ¬ (v = .ground ∧ printable unit = true)) :
    stripLoop (unit :: rest) false s =
      stripLoop rest (CommandOutput.isHighSurrogate unit)
        ⟨s.out ++ s.run ++ (if isExecutable unit && v.printsLineControls then [unit] else []),
          (nextState v unit).number, []⟩ := by
  have hrd :
      ¬ (decide (s.state = CommandOutput.ground) && CommandOutput.printable unit) = true := by
    rw [Bool.and_eq_true, decide_eq_true_eq, hs, number_ground]
    exact h
  have hec : CommandOutput.isExecutable unit = isExecutable unit := rfl
  rw [stripLoop, if_neg (by simp), if_neg hrd, hs, executesC0_number, nextState_number, hec]
  split <;> simp

/-- Of the controls the parser executes only tabs and line ends stay. -/
theorem strip_executed (hvd : code.isValidChar) (h : ¬ (v = .ground ∧ printable code = true)) :
    stripDisallowedControls (if isExecutable code && v.printsLineControls then [code] else []) =
      textUnits (kept v code) := by
  have hkp : kept v code =
      if v.printsLineControls && lineControl code then (charFromU32 code).toList else [] := by
    have hf : (decide (v = .ground) && printable code) = false := by
      simpa using h
    simp [kept, hf]
  rw [hkp]
  cases hp : v.printsLineControls with
  | false => simp [stripDisallowedControls, textUnits]
  | true =>
    by_cases hln : lineControl code = true
    · have hcd : code = 0x09 ∨ code = 0x0a ∨ code = 0x0d := by simpa [lineControl] using hln
      have hec : isExecutable code = true := isExecutable_iff.mpr (by omega)
      simp only [hec, hln, Bool.and_self, if_true, textUnits_char hvd]
      rw [unitsOf, if_pos (by omega)]
      simp [stripDisallowedControls, hcd]
    · have hcd : ¬ (code = 0x09 ∨ code = 0x0a ∨ code = 0x0d) := by simpa [lineControl] using hln
      simp only [hln, Bool.and_true, Bool.and_false, Bool.false_eq_true, if_false]
      split
      next hec =>
        have hl : code < 0x20 := by
          rw [isExecutable_iff] at hec
          omega
        simp [stripDisallowedControls, hcd, hl, textUnits]
      · rfl

/-- Any other code moves both alike. -/
theorem stripping_read (hvd : code.isValidChar) (hs : s.state = v.number)
    (h : ¬ (v = .ground ∧ printable code = true)) :
    ∃ s', stripLoop (unitsOf code ++ rest) false s = stripLoop rest false s' ∧
      Stripping v code s s' := by
  have htx := strip_executed hvd h
  unfold unitsOf
  split
  next hb =>
    have hhi : isHighSurrogate code = false := by
      simp only [isHighSurrogate, Bool.and_eq_false_iff, decide_eq_false_iff_not]
      omega
    refine ⟨_, by rw [singleton_append, stripLoop_read hs h, hhi], ⟨rfl, ?_⟩⟩
    · rw [append_nil, strip_append, htx]
  next ha =>
  have hp : printable code = true := printable_iff.mpr (by omega)
  have hv : v ≠ .ground := fun hv => h ⟨hv, hp⟩
  have hhi : isHighSurrogate (0xd800 + (code - 0x10000) / 1024) = true := by
    simp only [isHighSurrogate, Bool.and_eq_true, decide_eq_true_eq]
    omega
  have hl : isLowSurrogate (0xdc00 + (code - 0x10000) % 1024) = true := by
    simp only [isLowSurrogate, Bool.and_eq_true, decide_eq_true_eq]
    omega
  refine ⟨⟨s.out ++ s.run ++ [], (nextState v code).number, []⟩, ?_, rfl, ?_⟩
  · rw [cons_append, stripLoop_read hs (fun h => hv h.1), hhi, singleton_append, stripLoop]
    have hec : isExecutable (0xd800 + (code - 0x10000) / 1024) = false := by
      rw [Bool.eq_false_iff, Ne, isExecutable_iff]
      omega
    simp only [hl, Bool.and_self, if_true, hec, Bool.false_and, Bool.false_eq_true, if_false]
    rw [nextState_of_ge v (by omega), nextState_of_ge v (by omega)]
  · have hec : isExecutable code = false := by
      rw [Bool.eq_false_iff, Ne, isExecutable_iff]
      omega
    rw [← htx]
    simp [hec, stripDisallowedControls]

/-- **The server's loop keeps what the parser keeps.** -/
theorem stripLoop_visible {codes : List ℕ} (hvd : ∀ code ∈ codes, code.isValidChar)
    (hs : s.state = v.number) :
    stripDisallowedControls ((stripLoop (codes.flatMap unitsOf) false s).out ++
        (stripLoop (codes.flatMap unitsOf) false s).run) =
      stripDisallowedControls (s.out ++ s.run) ++ textUnits (visible v codes) := by
  induction codes generalizing v s with
  | nil => simp [stripLoop, visible, textUnits]
  | cons code codes ih =>
    have hcd := hvd code mem_cons_self
    have hsp : ∃ s', stripLoop (unitsOf code ++ codes.flatMap unitsOf) false s =
        stripLoop (codes.flatMap unitsOf) false s' ∧ Stripping v code s s' := by
      by_cases hp : v = .ground ∧ printable code = true
      · obtain ⟨rfl, hr⟩ := hp
        exact stripping_printed hcd hs hr
      · exact stripping_read hcd hs hp
    obtain ⟨s', hlp, hsi⟩ := hsp
    rw [flatMap_cons, hlp, ih (fun c hc => hvd c (mem_cons_of_mem _ hc)) hsi.state, hsi.text,
      visible, textUnits_append, append_assoc]

end Loop

theorem lossyCodes_valid (stream : List UInt8) :
    ∀ code ∈ withoutByteOrderMark (lossyCodes stream),
      code.isValidChar := by
  have ha : ∀ code ∈ lossyCodes stream, code.isValidChar := by
    intro code hcd
    obtain ⟨item, hi, rfl⟩ := mem_map.mp hcd
    have hs := Utf8.decode_scalar stream item hi
    cases item with
    | none => exact .inr (by decide)
    | some v => exact hs v rfl
  cases hc : lossyCodes stream with
  | nil => simp [withoutByteOrderMark]
  | cons first rest =>
    rw [hc] at ha
    rw [withoutByteOrderMark]
    split
    · exact fun code hcd => ha code (mem_cons_of_mem _ hcd)
    · exact ha

/-- The server's text, by code points. -/
theorem cleaned_visible (stream : List UInt8) :
    cleaned (decodeLossy stream) = textUnits
      (visible ground (withoutByteOrderMark (lossyCodes stream))) :=
  stripLoop_visible (s := ⟨[], CommandOutput.ground, []⟩) (v := .ground)
    (lossyCodes_valid stream) rfl

/-- **The node and the server clean every stream alike**: the text the node's parser keeps,
as UTF-16 code units, is the server's. -/
theorem cleanBytes_agrees (stream : List UInt8) :
    CommandOutput.cleaned (CommandOutput.decodeLossy stream) = textUnits (cleanBytes stream) := by
  rw [cleaned_visible, cleanBytes_visible]

end ModelProxy.Terminal
