import ModelProxy.StreamSteps

/-! # Masking a stream and cleaning it

The terminal's text of masked output is the masked text of the terminal: each group of the
stream is one line of it, masked as that line is, and a group in which nothing is masked comes
out as it went in.  The one difference is a byte order mark that begins the first line: behind
the start of the output the terminal drops it.
-/
namespace ModelProxy.Terminal
open VtState Transducer List TerminalByteState

/-! ## Reading what was shown -/

section
variable {cs : List Char}

/-- A character a terminal keeps in its ground state. -/
def Keeps (c : Char) : Prop := Redact.Shown c ∨ lineControl c.toNat = true

theorem readItem_keeps {c : Char} (h : Keeps c) :
    readItem (ground, true) (some c.toNat) = ((ground, true), [c]) := by
  have hch : (charFromU32 c.toNat).toList = [c] := by
    have hvd : c.toNat.isValidChar := ModelProxy.Utf8.isValidChar_toNat c
    obtain ⟨c', hc', hcd⟩ := charFromU32_valid hvd
    rw [hc', Option.toList_some, ← Char.ofNat_toNat c, ← hcd, Char.ofNat_toNat]
  have hnx : nextState ground c.toNat = ground := by
    rcases h with hsh | hc
    · exact nextState_ground (printable_iff.mpr hsh)
    · have hcd : c.toNat = 9 ∨ c.toNat = 10 ∨ c.toNat = 13 := of_decide_eq_true hc
      rcases hcd with hcd | hcd | hcd <;> rw [hcd] <;> rfl
  have hkp : kept ground c.toNat = [c] := by
    unfold kept
    rw [hch, if_pos]
    rcases h with hsh | hc
    · simp [printable_iff.mpr hsh]
    · simp [hc, printsLineControls]
  rw [readItem_later, Option.getD_some, hnx, hkp]

theorem run_readItem_keeps (h : ∀ c ∈ cs, Keeps c) :
    run readItem (ground, true) (cs.map fun c => some c.toNat) =
      ((ground, true), cs) := by
  induction cs with
  | nil => rfl
  | cons c cs ih =>
    rw [map_cons, run_cons, readItem_keeps (h c (by simp)), ih fun c' hc' => h c' (by simp [hc'])]
    rfl

/-- The byte order mark. -/
def byteOrderMark : Char := '\uFEFF'

/-- A text without the byte order mark it begins with. -/
def withoutMark (text : List Char) : List Char :=
  if text.head? = some byteOrderMark then text.tail else text

/-- The first character of a stream is read as any other, unless it is the mark. -/
theorem run_readItem_first (h : ∀ c ∈ cs, Keeps c) (hne : cs ≠ []) :
    run readItem (ground, false) (cs.map fun c => some c.toNat) =
      ((ground, true), withoutMark cs) := by
  cases cs with
  | nil => exact absurd rfl hne
  | cons c cs =>
    have hr := run_readItem_keeps fun c' hc' => h c' (mem_cons_of_mem c hc')
    rw [map_cons, run_cons]
    by_cases hmk : c = byteOrderMark
    · subst hmk
      have hrd : readItem (ground, false) (some byteOrderMark.toNat) = ((ground, true), []) :=
        rfl
      rw [hrd, hr]
      rfl
    · have hcd : c.toNat ≠ 0xfeff := by
        intro hcd
        apply hmk
        rw [← Char.ofNat_toNat c, hcd]
        rfl
      have hrd : readItem (ground, false) (some c.toNat) =
          readItem (ground, true) (some c.toNat) := by
        simp [readItem, code, hcd]
      have hk : withoutMark (c :: cs) = c :: cs := by
        simp [withoutMark, hmk]
      rw [hrd, readItem_keeps (h c (by simp)), hr, hk]
      rfl

/-- **A terminal shows a text it has shown before**, but for a byte order mark at the start of
its input. -/
theorem run_encode_keeps (h : ∀ c ∈ cs, Keeps c) (hne : cs ≠ []) (decodedAny : Bool) :
    run decode ⟨ground, decodedAny, .idle⟩
        (ModelProxy.Utf8.encode cs) =
      (afterGroup, if decodedAny then cs else withoutMark cs) := by
  have hre := reads_run (s := ⟨ground, decodedAny, .idle⟩) Stands.idle
    (ModelProxy.Utf8.encode cs)
  rw [ModelProxy.Utf8.run_encode] at hre
  have hi : run readItem (ground, decodedAny) (cs.map fun c => some c.toNat) =
      ((ground, true), if decodedAny then cs else withoutMark cs) := by
    cases decodedAny with
    | true => exact run_readItem_keeps h
    | false => exact run_readItem_first h hne
  obtain ⟨hs, hr, htx⟩ := hre
  have hi' : run readItem
      (reader ⟨ground, decodedAny, .idle⟩) (cs.map fun c => some c.toNat) =
      ((ground, true), if decodedAny then cs else withoutMark cs) := hi
  rw [hi'] at hr htx
  generalize run decode ⟨ground, decodedAny, .idle⟩
    (ModelProxy.Utf8.encode cs) = read at hs hr htx
  obtain ⟨⟨st, any, utf8⟩, shown⟩ := read
  obtain ⟨rfl, rfl⟩ : st = ground ∧ any = true := Prod.mk.inj hr
  have hid : utf8 = .idle := by
    generalize hd : ModelProxy.Utf8.Decoder.idle = d at hs
    cases hs with
    | idle => rfl
    | inside hm =>
      have hn := congrArg ModelProxy.Utf8.Decoder.needed hd
      simp only [ModelProxy.Utf8.Decoder.idle] at hn
      omega
  subst hid
  exact Prod.ext rfl htx

end

/-! ## The text of a group -/

section
variable {t : TerminalByteState}

theorem TerminalByteState.Proper.run (h : t.Proper) (bs : List UInt8) :
    (run TerminalByteState.decode t bs).1.Proper := by
  induction bs generalizing t with
  | nil => exact h
  | cons b bs ih => exact ih (h.decode b)

theorem keeps_of_mem_run (h : t.Proper) {bs : List UInt8} {c : Char}
    (hm : c ∈ (run decode t bs).2) :
    Keeps c ∧ (c = '\n' → lfByte ∈ bs) := by
  induction bs generalizing t with
  | nil => cases hm
  | cons b bs ih =>
    rcases mem_append.mp hm with hm | hm
    · refine ⟨shown_of_mem_decode h hm, ?_⟩
      rintro rfl
      rw [lf_of_mem_decode h hm]
      exact mem_cons_self
    · obtain ⟨hk, hlf⟩ := ih (h.decode b) hm
      exact ⟨hk, fun hc => mem_cons_of_mem b (hlf hc)⟩

/-- Carriage returns on a character boundary leave the parser where it is. -/
theorem run_crs (st : VtState) (n : ℕ) :
    run decode ⟨st, true, .idle⟩ (replicate n 0x0D) =
      (⟨st, true, .idle⟩, if st.printsLineControls then replicate n '\r' else []) := by
  induction n with
  | zero => simp
  | succ n ih =>
    have hsp : decode ⟨st, true, .idle⟩ 0x0D =
        (⟨st, true, .idle⟩, if st.printsLineControls then ['\r'] else []) :=
      code_lineEnd ⟨st, true, .idle⟩ (.inr rfl)
    rw [replicate_succ, run_cons, hsp, ih]
    by_cases hs : st.printsLineControls
    · simp [hs, replicate_succ]
    · simp [hs]

/-- Carriage returns that a line feed follows in the ground state are all shown, behind
whatever character the first of them cuts short. -/
theorem run_lineEnd (h : t.Proper) (crs : ℕ) (hnd : (run decode t
      (replicate crs 0x0D ++ [lfByte])).1.state = ground) :
    ∃ cut, run decode t (replicate crs 0x0D ++ [lfByte]) =
        (afterGroup, cut ++ replicate crs '\r' ++ ['\n']) ∧
      ∀ c ∈ cut, Keeps c ∧ c ≠ '\n' := by
  cases crs with
  | zero =>
    have ho : run decode t [lfByte] = t.decode lfByte := by
      rw [run_cons, run_nil, append_nil]
    simp only [replicate_zero, nil_append, append_nil, ho] at hnd ⊢
    obtain ⟨ha, cut, hrd, ht⟩ := decode_lf h hnd
    refine ⟨cut, Prod.ext ha hrd, fun c hc => ⟨?_, fun hlf => ht (hlf ▸ hc)⟩⟩
    exact shown_of_mem_decode h (hrd ▸ mem_append_left _ hc)
  | succ crs =>
    obtain ⟨st, cut, hrd, ht, -⟩ := decode_lineEnd h 0x0D (.inr rfl)
    have hlf : decode ⟨st, true, .idle⟩ lfByte =
        (⟨st, true, .idle⟩, if st.printsLineControls then ['\n'] else []) :=
      code_lineEnd ⟨st, true, .idle⟩ (.inl rfl)
    have hr : run decode t
        (replicate (crs + 1) 0x0D ++ [lfByte]) =
        (⟨st, true, .idle⟩, cut ++ (if st.printsLineControls then ['\r'] else []) ++
          ((if st.printsLineControls then replicate crs '\r' else []) ++
            if st.printsLineControls then ['\n'] else [])) := by
      rw [replicate_succ, cons_append, run_cons, hrd, run_append, run_crs, run_cons, hlf, run_nil,
        append_nil]
      rfl
    rw [hr] at hnd ⊢
    obtain rfl : st = ground := hnd
    have hm {c : Char} (hc : c ∈ cut) : c ∈ (t.decode 0x0D).2 := by
      rw [hrd]
      exact mem_append_left _ hc
    refine ⟨cut, Prod.ext rfl ?_, fun c hc => ⟨shown_of_mem_decode h (hm hc), ?_⟩⟩
    · simp [printsLineControls, replicate_succ]
    · exact fun hlf => ht (hlf ▸ hc)

/-- **The text of a group**: it has no line feed but the one that ends it, and the carriage
returns in front of that are all shown. -/
theorem run_group_text (h : t.Proper) {front : List UInt8} {crs : ℕ} (hno : lfByte ∉ front)
    (hnd : (run decode t (front ++ (replicate crs 0x0D ++ [lfByte]))).1.state = ground) :
    ∃ cs, run decode t
        (front ++ (replicate crs 0x0D ++ [lfByte])) =
        (afterGroup, cs ++ replicate crs '\r' ++ ['\n']) ∧
      ∀ c ∈ cs, Keeps c ∧ c ≠ '\n' := by
  rw [run_append] at hnd ⊢
  obtain ⟨cut, hrd, ht⟩ := run_lineEnd (h.run front) crs hnd
  refine ⟨(run decode t front).2 ++ cut, ?_, fun c hc => ?_⟩
  · rw [hrd]
    simp
  · rcases mem_append.mp hc with hc | hc
    · obtain ⟨hk, hlf⟩ := keeps_of_mem_run h hc
      exact ⟨hk, fun heq => hno (hlf heq)⟩
    · exact ht c hc

end

/-- A terminal between two groups, or at the start of a stream. -/
def standing (decodedAny : Bool) : TerminalByteState := ⟨ground, decodedAny, .idle⟩

theorem proper_standing (dec : Bool) : (standing dec).Proper :=
  ⟨.idle, .idle, ModelProxy.Utf8.sound_idle, le_rfl⟩

end ModelProxy.Terminal

namespace ModelProxy.Output
open Redact Terminal List TerminalByteState Transducer

variable {m : LineMasker} {raw line ends : List Char} {dec : Bool} {raws : List (List Char)}

/-! ## Carriage returns in front of a line feed -/

theorem trailingCrs_split (bs : List UInt8) :
    ∃ front, bs = front ++ replicate (trailingCrs bs) crByte := by
  refine ⟨bs.rdropWhile (· == crByte), ?_⟩
  have hc : bs.rtakeWhile (· == crByte) = replicate (trailingCrs bs) crByte := by
    refine eq_replicate_iff.mpr ⟨by simp [rtakeWhile, trailingCrs], fun b hby => ?_⟩
    exact eq_of_beq (mem_rtakeWhile_imp (p := (· == crByte)) hby)
  rw [← hc, rdropWhile_append_rtakeWhile]

theorem le_trailingCrs (front : List UInt8) (n : ℕ) :
    n ≤ trailingCrs (front ++ replicate n crByte) := by
  unfold trailingCrs
  rw [reverse_append, reverse_replicate]
  induction n with
  | zero => exact Nat.zero_le _
  | succ n ih =>
    exact Nat.succ_le_succ ih

/-- Line ends behind a line are not part of its body. -/
theorem lineBody_append (h : ∀ c ∈ ends, isLineEnd c = true) (raw : List Char) :
    lineBody (raw ++ ends) = lineBody raw := by
  induction ends using reverseRecOn with
  | nil => rw [append_nil]
  | append_singleton ends c ih =>
    unfold lineBody at ih ⊢
    rw [← append_assoc, rdropWhile_concat_pos _ _ _ (h c (by simp))]
    exact ih fun c' hc' => h c' (by simp [hc'])

/-! ## What a stream of groups is masked to -/

/-- The bytes of groups, each with the line feed that ends it. -/
def stream (groups : List (List UInt8)) : List UInt8 := groups.flatMap fun content =>
  content ++ [lfByte]

/-- Groups a masker can hold: a line feed ends each, and the terminal is in its ground state
there. -/
def Grouped (holdLimit : ℕ) : TerminalByteState → List (List UInt8) → Prop
  | _, [] => True
  | t, content :: groups =>
    lfByte ∉ content ∧ (content ++ [lfByte]).length ≤ holdLimit ∧
      (Transducer.run TerminalByteState.decode t (content ++ [lfByte])).1.state = .ground ∧
      Grouped holdLimit (Transducer.run TerminalByteState.decode t (content ++ [lfByte])).1 groups

instance decidableGrouped (holdLimit : ℕ) :
    ∀ t groups, Decidable (Grouped holdLimit t groups)
  | _, [] => inferInstanceAs (Decidable True)
  | t, content :: groups =>
    have := decidableGrouped holdLimit
      (Transducer.run TerminalByteState.decode t (content ++ [lfByte])).1 groups
    inferInstanceAs (Decidable (_ ∧ _ ∧ _ ∧ _))

/-- A line masked with its line end kept, and how many values in it are masked. -/
def maskedLine (m : LineMasker) (raw : List Char) : List Char × ℕ :=
  ((m.maskLineCounted (lineBody raw)).2.1 ++ raw.drop (lineBody raw).length,
    (m.maskLineCounted (lineBody raw)).2.2)

/-- Lines masked one after the other. -/
def maskedLines (m : LineMasker) : List (List Char) → List (List Char × ℕ)
  | [] => []
  | raw :: raws =>
    maskedLine m raw :: maskedLines (m.maskLineCounted (lineBody raw)).1 raws

theorem length_maskedLines (m : LineMasker) (raws : List (List Char)) :
    (maskedLines m raws).length = raws.length := by
  induction raws generalizing m with
  | nil => rfl
  | cons raw raws ih => rw [maskedLines, length_cons, ih, length_cons]

/-- The input behind what is open after a line of so many bytes. -/
def liveAfter (m : LineMasker) (live size : ℕ) : ℕ := if m.inContinuation then live + size else 0

/-- The live input after each line. -/
def liveInputs (m : LineMasker) (live : ℕ) : List (List Char × ℕ) → List ℕ
  | [] => []
  | (raw, size) :: rest =>
    let m' := (m.maskLineCounted (lineBody raw)).1
    liveAfter m' live size :: liveInputs m' (liveAfter m' live size) rest

/-- What a group comes out as: byte for byte if nothing in it is masked. -/
def groupOutput (content : List UInt8) (masked : List Char × ℕ) : List UInt8 :=
  if masked.2 = 0 then content ++ [lfByte] else ModelProxy.Utf8.encode masked.1

/-- The lines a terminal shows of the output. -/
def shownLines (decodedAny : Bool) : List (List Char × ℕ) → List (List Char)
  | [] => []
  | masked :: rest =>
    (if masked.2 = 0 ∨ decodedAny = true then masked.1 else withoutMark masked.1) ::
      rest.map Prod.fst

/-- Nothing masked leaves a line as it is. -/
theorem maskedLine_unmasked (h : (maskedLine m raw).2 = 0) : (maskedLine m raw).1 = raw := by
  have hbo : lineBody raw ++ raw.drop (lineBody raw).length = raw :=
    prefix_append_drop (lineBody_start raw) |>.symm
  unfold maskedLine LineMasker.maskLineCounted at h ⊢
  dsimp only at h ⊢
  split at h
  next hno => rw [if_pos hno, hbo]
  next hso => exact absurd (length_eq_zero_iff.mp h) hso

/-- A masked line keeps its line end. -/
theorem maskedLine_append (h : ∀ c ∈ ends, isLineEnd c = true) (m : LineMasker) (raw : List Char) :
    maskedLine m (raw ++ ends) =
      ((maskedLine m raw).1 ++ ends, (maskedLine m raw).2) := by
  have hle : (lineBody raw).length ≤ raw.length := (lineBody_start raw).length_le
  unfold maskedLine
  rw [lineBody_append h, drop_append_of_le_length hle, append_assoc]

theorem mem_maskedLine {c : Char} (h : c ∈ (maskedLine m raw).1) : c ∈ raw ∨ Shown c := by
  rcases mem_append.mp h with h | h
  · rcases mem_maskLineCounted h with h | h
    · exact .inl ((lineBody_start raw).subset h)
    · exact .inr h
  · exact .inl (mem_of_mem_drop h)

namespace StreamMasker

/-! ## One group -/

/-- A masker in front of a group. -/
def ready (m : LineMasker) (t : TerminalByteState) (live holdLimit : ℕ) : StreamMasker :=
  ⟨m, [], [], t, .default, .scanning, false, false, false, live, holdLimit⟩

/-- A masker inside of a group. -/
def holding (m : LineMasker) (t : TerminalByteState) (live holdLimit : ℕ) (content : List UInt8) :
    StreamMasker :=
  { ready m (Transducer.run TerminalByteState.decode t content).1 live holdLimit with
    pending := content
    cleaned := (Transducer.run TerminalByteState.decode t content).2 }

section Group
variable {t : TerminalByteState} {live lim : ℕ} {content : List UInt8}

/-- Below the limit nothing has to make room. -/
theorem room_holding (hrm : content.length < lim) (b : UInt8) :
    (holding m t live lim content).room b = (holding m t live lim content, []) := by
  refine if_neg fun hf => ?_
  have hl : content.length = lim := hf.1
  omega

theorem pushByte_holding {byte : UInt8} (hlf : byte ≠ lfByte) (hrm : content.length < lim) :
    pushByte (holding m t live lim content) byte =
      (holding m t live lim (content ++ [byte]), []) := by
  have hnd : ¬ (holding m t live lim content).Ends byte := fun h => hlf h.1
  have hrd : run decode t (content ++ [byte]) =
      (((run decode t content).1.decode byte).1, (run decode t content).2 ++
          ((run decode t content).1.decode byte).2) := by
    rw [run_append, run_cons, run_nil, append_nil]
  rw [pushByte_eq, if_neg hnd]
  simp only [reads, room_holding hrm]
  unfold holding
  rw [hrd]
  rfl

/-- **The bytes of a group are held.** -/
theorem run_holding (more : List UInt8) (hlf : lfByte ∉ more)
    (hrm : content.length + more.length ≤ lim) :
    run pushByte (holding m t live lim content) more =
      (holding m t live lim (content ++ more), []) := by
  induction more generalizing content with
  | nil => rw [append_nil]; rfl
  | cons b more ih =>
    have hby : b ≠ lfByte := fun h => hlf (h ▸ mem_cons_self)
    rw [length_cons] at hrm
    rw [run_cons, pushByte_holding hby (by omega),
      ih (fun h => hlf (mem_cons_of_mem b h)) (by simp; omega)]
    simp

theorem encode_crs (n : ℕ) :
    ModelProxy.Utf8.encode (replicate n '\r') = replicate n crByte := by
  induction n with
  | zero => rfl
  | succ n ih =>
    rw [replicate_succ, replicate_succ, ← ih]
    rfl

/-- The text of a masked group ends in all the carriage returns its bytes end in. -/
theorem trailingCrs_maskedLine (m : LineMasker) (raw : List Char) (crs : ℕ) :
    crs ≤ trailingCrs (ModelProxy.Utf8.encode (maskedLine m (raw ++ replicate crs '\r')).1) := by
  have hnd : ∀ c ∈ replicate crs '\r', isLineEnd c = true := by
    intro c hc
    rw [eq_of_mem_replicate hc]
    rfl
  rw [maskedLine_append hnd, ModelProxy.Utf8.encode_append, encode_crs]
  exact le_trailingCrs _ crs

/-- A group of one line is masked as that line. -/
theorem emitGroup_line {s : StreamMasker} (hmd : s.mode = .scanning)
    (hc : s.recoveryPending = false) (hlf : lfByte ∉ s.pending) (hw : '\n' ∉ s.cleaned)
    (hl : s.cleaned = raw ++ replicate (trailingCrs s.pending) '\r')
    (hlv : liveAfter (s.masker.maskLineCounted (lineBody s.cleaned)).1 s.stateInputBytes
      (s.pending.length + 1) ≤ maxStateInputBytes) :
    s.emitGroup = ({ s with
        masker := (s.masker.maskLineCounted (lineBody s.cleaned)).1
        stateInputBytes := liveAfter (s.masker.maskLineCounted (lineBody s.cleaned)).1
          s.stateInputBytes (s.pending.length + 1)
        pending := []
        cleaned := [] },
      if (maskedLine s.masker s.cleaned).2 = 0 then s.pending
      else ModelProxy.Utf8.encode (maskedLine s.masker s.cleaned).1) := by
  have hln : s.lines = [s.cleaned] := by
    unfold lines
    split
    next he => rw [he]
    next hne => exact splitInclusive_last hne hw
  have hr : s.rendered = ⟨(s.masker.maskLineCounted (lineBody s.cleaned)).1, false,
      decide ((maskedLine s.masker s.cleaned).2 ≠ 0), (maskedLine s.masker s.cleaned).1⟩ := by
    unfold rendered
    rw [hln, hc]
    rfl
  have hb : s.liveBytes = liveAfter (s.masker.maskLineCounted (lineBody s.cleaned)).1
      s.stateInputBytes (s.pending.length + 1) := by
    unfold liveBytes
    rw [hr]
    rfl
  have hsh : s.shownGroup = (s.opaqueLine, if (maskedLine s.masker s.cleaned).2 = 0 then s.pending
      else ModelProxy.Utf8.encode (maskedLine s.masker s.cleaned).1) := by
    unfold shownGroup
    rw [hr]
    by_cases hn : (maskedLine s.masker s.cleaned).2 = 0
    · simp [hn]
    · -- No carriage return is hidden, so none is added behind the text.
      have hcr := trailingCrs_maskedLine s.masker raw (trailingCrs s.pending)
      rw [← hl] at hcr
      simp [hn, hlf, Nat.sub_eq_zero_of_le hcr]
  unfold emitGroup
  rw [if_neg (not_not.mpr hmd), hsh, hr, hb]
  dsimp only
  rw [if_neg (by omega)]
  simp only [clearPiece, hc]

/-- What the terminal reads of a group. -/
structure GroupText (t : TerminalByteState) (content : List UInt8) (line : List Char) : Prop where
  run : Transducer.run TerminalByteState.decode t (content ++ [lfByte]) = (standing true, line)
  body : ∃ raw, line = raw ++ List.replicate (trailingCrs content) '\r' ++ ['\n'] ∧ '\n' ∉ raw
  keeps : ∀ c ∈ line, Keeps c

/-- The bytes of a group are one line. -/
theorem groupText (h : t.Proper) (hlf : lfByte ∉ content)
    (hnd : (run decode t (content ++ [lfByte])).1.state = .ground) :
    ∃ line, GroupText t content line := by
  obtain ⟨front, hf⟩ := trailingCrs_split content
  have hs : content ++ [lfByte] =
      front ++ (replicate (trailingCrs content) 0x0D ++ [lfByte]) := by
    rw [← append_assoc]
    exact congrArg (· ++ [lfByte]) hf
  have hno : lfByte ∉ front := fun hm => hlf (by rw [hf]; exact mem_append_left _ hm)
  rw [hs] at hnd
  obtain ⟨cs, hr, htx⟩ := run_group_text h hno hnd
  refine ⟨_, (congrArg _ hs).trans hr, ⟨cs, rfl, fun hm => (htx _ hm).2 rfl⟩, ?_⟩
  intro c hc
  rcases mem_append.mp hc with hc | hc
  · rcases mem_append.mp hc with hc | hc
    · exact (htx c hc).1
    · rw [eq_of_mem_replicate hc]
      exact .inr rfl
  · rw [mem_singleton.mp hc]
    exact .inr rfl

/-- The masker on the line feed of a group it holds. -/
theorem closing_holding (m : LineMasker) (live : ℕ) (hr : run decode t (content ++ [lfByte]) =
      (standing true, raw ++ ['\n'])) (hrm : content.length < lim) :
    (holding m t live lim content).Ends lfByte ∧
      (holding m t live lim content).room lfByte = (holding m t live lim content, []) ∧
      (holding m t live lim content).closing =
        { ready m (standing true) live lim with pending := content, cleaned := raw } := by
  have hrd : run decode t (content ++ [lfByte]) =
      (((holding m t live lim content).terminal.decode lfByte).1,
        (holding m t live lim content).cleaned ++
          ((holding m t live lim content).terminal.decode lfByte).2) := by
    rw [run_append, run_cons, run_nil, append_nil]
    rfl
  rw [hrd] at hr
  obtain ⟨htr, hc⟩ := Prod.mk.inj hr
  refine ⟨⟨rfl, ?_⟩, room_holding hrm lfByte, ?_⟩
  · rw [htr]
    rfl
  · unfold closing reads
    rw [room_holding hrm, htr, hc, dropLast_concat]
    rfl

/-- **One group**: it comes out as its line is masked. -/
theorem run_ready (htx : GroupText t content line) (hlf : lfByte ∉ content)
    (hrm : (content ++ [lfByte]).length ≤ lim)
    (hlv : liveAfter (m.maskLineCounted (lineBody line)).1 live (content ++ [lfByte]).length ≤
      maxStateInputBytes) :
    run pushByte (ready m t live lim) (content ++ [lfByte]) =
      (ready (m.maskLineCounted (lineBody line)).1 (standing true)
          (liveAfter (m.maskLineCounted (lineBody line)).1 live (content ++ [lfByte]).length)
          lim,
        groupOutput content (maskedLine m line)) := by
  obtain ⟨hrun, ⟨front, hln, hfro⟩, -⟩ := htx
  generalize hraw : front ++ replicate (trailingCrs content) '\r' = raw at hln
  have hlen : (content ++ [lfByte]).length = content.length + 1 := by simp
  rw [hlen] at hrm hlv ⊢
  rw [hln] at hrun hlv ⊢
  have hlfE : ∀ c ∈ ['\n'], isLineEnd c = true := forall_mem_singleton.mpr rfl
  rw [lineBody_append hlfE] at hlv ⊢
  have hno : '\n' ∉ raw := by
    rw [← hraw, mem_append]
    rintro (hmem | hmem)
    · exact hfro hmem
    · cases eq_of_mem_replicate hmem
  obtain ⟨hnd, hke, hclo⟩ :=
    closing_holding m live hrun (by omega : content.length < lim)
  have hgro := emitGroup_line
    (s := { ready m (standing true) live lim with pending := content, cleaned := raw })
    rfl rfl hlf hno hraw.symm hlv
  have hemp : ready m t live lim = holding m t live lim [] := rfl
  rw [hemp, run_append, run_holding content hlf (by simp; omega), run_cons,
    nil_append, pushByte_eq, if_pos hnd, hke, group, hclo, hgro]
  unfold groupOutput
  rw [maskedLine_append hlfE]
  refine Prod.ext rfl ?_
  show [] ++ (if (maskedLine m raw).2 = 0 then content
    else ModelProxy.Utf8.encode (maskedLine m raw).1) ++ [lfByte] ++ [] = _
  by_cases hcnt : (maskedLine m raw).2 = 0
  · simp [hcnt]
  · simp only [if_neg hcnt, ModelProxy.Utf8.encode_append, nil_append, append_nil]
    rfl

/-- What the terminal shows of a group's output. -/
theorem run_groupOutput (htx : GroupText (standing dec) content line) :
    run decode (standing dec)
        (groupOutput content (maskedLine m line)) =
      (standing true, if (maskedLine m line).2 = 0 ∨ dec = true then (maskedLine m line).1
        else withoutMark (maskedLine m line).1) := by
  unfold groupOutput
  by_cases hn : (maskedLine m line).2 = 0
  · rw [if_pos hn, if_pos (.inl hn), maskedLine_unmasked hn, htx.run]
  obtain ⟨raw, hln, -⟩ := htx.body
  have hne : (maskedLine m line).1 ≠ [] := by
    rw [hln, maskedLine_append (forall_mem_singleton.mpr rfl)]
    simp
  have hk : ∀ c ∈ (maskedLine m line).1, Keeps c := fun c hc => by
    rcases mem_maskedLine hc with hc | hc
    · exact htx.keeps c hc
    · exact .inl hc
  rw [if_neg hn, standing, run_encode_keeps hk hne]
  simp only [hn, false_or]
  rfl

end Group

/-! ## A whole stream -/

@[simp] theorem shownLines_true (masked : List (List Char × ℕ)) :
    shownLines true masked = masked.map Prod.fst := by
  cases masked with
  | nil => rfl
  | cons first rest => simp [shownLines]

/-- A masked line ends in its only line feed, also without its mark. -/
theorem shownLine_ends (m : LineMasker) (h : '\n' ∉ raw) (whole : Prop) [Decidable whole] :
    ∃ cs, '\n' ∉ cs ∧
      (if whole then (maskedLine m (raw ++ ['\n'])).1
        else withoutMark (maskedLine m (raw ++ ['\n'])).1) = cs ++ ['\n'] := by
  have hno : '\n' ∉ (maskedLine m raw).1 := by
    intro hm
    rcases mem_maskedLine hm with hm | hsh
    · exact h hm
    · exact absurd hsh (by decide)
  rw [maskedLine_append (forall_mem_singleton.mpr rfl)]
  split
  · exact ⟨_, hno, rfl⟩
  generalize (maskedLine m raw).1 = cs at hno
  cases cs with
  | nil => exact ⟨[], by simp, rfl⟩
  | cons c cs =>
    unfold withoutMark
    split
    · exact ⟨cs, fun hm => hno (mem_cons_of_mem c hm), rfl⟩
    · exact ⟨c :: cs, hno, rfl⟩

/-- What the masker and a terminal behind it make of a stream of groups that is read as these
lines. -/
structure Streamed (m : LineMasker) (decodedAny : Bool) (live holdLimit : ℕ)
    (groups : List (List UInt8)) (raws : List (List Char)) : Prop where
  read : Transducer.run TerminalByteState.decode (standing decodedAny) (stream groups) =
    (standing (decodedAny || !groups.isEmpty), raws.flatten)
  lines : Lines '\n' raws
  length : raws.length = groups.length
  masked : (∀ n ∈ liveInputs m live (raws.zip (groups.map fun content =>
      (content ++ [lfByte]).length)), n ≤ maxStateInputBytes) →
    ∃ m' live', Transducer.run pushByte (ready m (standing decodedAny) live holdLimit)
        (stream groups) =
      (ready m' (standing (decodedAny || !groups.isEmpty)) live' holdLimit,
        (List.zipWith groupOutput groups (maskedLines m raws)).flatten)
  reread : Transducer.run TerminalByteState.decode (standing decodedAny)
      (List.zipWith groupOutput groups (maskedLines m raws)).flatten =
    (standing (decodedAny || !groups.isEmpty),
      (shownLines decodedAny (maskedLines m raws)).flatten)
  shown : Lines '\n' (shownLines decodedAny (maskedLines m raws))

theorem streamed_nil (m : LineMasker) (dec : Bool) (live lim : ℕ) :
    Streamed m dec live lim [] [] where
  read := by simp [stream]
  lines := .nil
  length := rfl
  masked := fun _ => ⟨m, live, by simp [stream]⟩
  reread := by simp [maskedLines, shownLines]
  shown := .nil

/-- One group in front of a stream. -/
theorem Streamed.cons {live lim : ℕ} {content : List UInt8} {groups : List (List UInt8)}
    (htx : GroupText (standing dec) content line) (hlf : lfByte ∉ content)
    (hrm : (content ++ [lfByte]).length ≤ lim)
    (h : Streamed (m.maskLineCounted (lineBody line)).1 true
      (liveAfter (m.maskLineCounted (lineBody line)).1 live (content ++ [lfByte]).length)
      lim groups raws) : Streamed m dec live lim (content :: groups) (line :: raws) := by
  have ht : stream (content :: groups) = (content ++ [lfByte]) ++ stream groups := rfl
  have hs : standing (dec || !(content :: groups).isEmpty) =
      standing (true || !groups.isEmpty) := by simp
  obtain ⟨front, hln, hf⟩ := htx.body
  generalize hw : front ++ replicate (trailingCrs content) '\r' = raw at hln
  have hno : '\n' ∉ raw := by
    rw [← hw, mem_append]
    rintro (hm | hm)
    · exact hf hm
    · cases eq_of_mem_replicate hm
  rw [hln] at htx h ⊢
  refine ⟨?_, .cons hno h.lines, congrArg (· + 1) h.length, fun hlv => ?_, ?_, ?_⟩
  · rw [ht, run_append, htx.run, h.read, hs]
    rfl
  · have hfs := hlv _ mem_cons_self
    obtain ⟨m', live', hru⟩ := h.masked fun n hn => hlv n (mem_cons_of_mem _ hn)
    refine ⟨m', live', ?_⟩
    rw [ht, run_append, run_ready htx hlf hrm hfs, hru, hs]
    rfl
  · have hr := h.reread
    rw [shownLines_true] at hr
    rw [maskedLines, zipWith_cons_cons, flatten_cons, run_append, run_groupOutput htx, hr, hs]
    rfl
  · have hsh := h.shown
    rw [shownLines_true] at hsh
    obtain ⟨cs, htx, hnd⟩ := shownLine_ends m hno
      ((maskedLine m (raw ++ ['\n'])).2 = 0 ∨ dec = true)
    rw [maskedLines, shownLines, hnd]
    exact .cons htx hsh

/-- Groups are masked as their lines are. -/
theorem streamed {lim : ℕ} {gs : List (List UInt8)} (m : LineMasker) (dec : Bool)
    (live : ℕ) (h : Grouped lim (standing dec) gs) :
    ∃ raws, Streamed m dec live lim gs raws := by
  induction gs generalizing m dec live with
  | nil => exact ⟨[], streamed_nil m dec live lim⟩
  | cons content gs ih =>
    obtain ⟨hlf, hrm, hnd, hr⟩ := h
    obtain ⟨line, htx⟩ := groupText (proper_standing dec) hlf hnd
    rw [htx.run] at hr
    obtain ⟨raws, hra⟩ := ih (m.maskLineCounted (lineBody line)).1 true
      (liveAfter (m.maskLineCounted (lineBody line)).1 live (content ++ [lfByte]).length) hr
    exact ⟨line :: raws, hra.cons htx hlf hrm⟩

/-- The lines a terminal shows of some bytes. -/
def cleanedLines (bytes : List UInt8) : List (List Char) := splitInclusive '\n' (cleanBytes bytes)

theorem cleanedLines_eq {bs : List UInt8} (hrd : run decode (standing false) bs =
      (standing dec, raws.flatten)) (hl : Lines '\n' raws) : cleanedLines bs = raws := by
  have hc : cleanBytes bs =
      (run decode (standing false) bs).2 ++
        (run decode (standing false) bs).1.finishClean.2 := rfl
  rw [cleanedLines, hc, hrd]
  show splitInclusive '\n' (raws.flatten ++ []) = raws
  rw [append_nil, hl.split]

/-- **Masking commutes with cleaning.**  A stream of groups that can be held comes out group by
group as its lines are masked, and a terminal shows the masked lines.  Of the first line it
drops a byte order mark if something in that line is masked, and a group in which nothing is
comes out byte for byte. -/
theorem masked_stream_shows (command : List Char) (holdLimit : ℕ) (groups : List (List UInt8))
    (chunks : List (List UInt8)) (hchunks : chunks.flatten = stream groups)
    (hgroups : Grouped holdLimit .default groups)
    (hlive : ∀ n ∈ liveInputs (.new (classOf command)) 0
      ((cleanedLines (stream groups)).zip (groups.map fun content =>
        (content ++ [lfByte]).length)), n ≤ maxStateInputBytes) :
    let masked := maskedLines (.new (classOf command)) (cleanedLines (stream groups))
    masked.length = groups.length ∧
      (withLimit command holdLimit).maskChunks chunks =
        (List.zipWith groupOutput groups masked).flatten ∧
      cleanedLines ((withLimit command holdLimit).maskChunks chunks) = shownLines false masked := by
  obtain ⟨raws, h⟩ := streamed (LineMasker.new (classOf command)) false 0 hgroups
  rw [cleanedLines_eq h.read h.lines] at hlive ⊢
  obtain ⟨m', live', hr⟩ := h.masked hlive
  have ho : (withLimit command holdLimit).maskChunks chunks =
      (List.zipWith groupOutput groups (maskedLines (.new (classOf command)) raws)).flatten := by
    have hs : withLimit command holdLimit =
        ready (.new (classOf command)) (standing false) 0 holdLimit := rfl
    rw [maskChunks, hs, run_push _ rfl, hchunks, hr]
    show _ ++ [] = _
    rw [append_nil]
  refine ⟨(length_maskedLines _ _).trans h.length, ho, ?_⟩
  rw [ho]
  exact cleanedLines_eq h.reread h.shown

/-- A masked line, and one that only has colours. -/
def tokenGroups : List (List UInt8) :=
  [ModelProxy.Utf8.encode "--token abc".toList,
    ModelProxy.Utf8.encode "\x1b[31mred\x1b[0m".toList]

/-- A token, then a coloured line. -/
theorem masked_stream_shows_token :
    (withLimit [] 64).maskChunks [stream tokenGroups] =
        ModelProxy.Utf8.encode "--token ⟦redacted:3⟧\n\x1b[31mred\x1b[0m\n".toList ∧
      cleanedLines ((withLimit [] 64).maskChunks [stream tokenGroups]) =
        shownLines false (maskedLines (.new (classOf [])) (cleanedLines (stream tokenGroups))) :=
  ⟨by decide +kernel,
    (masked_stream_shows [] 64 tokenGroups [stream tokenGroups] (by simp) (by decide +kernel)
      (by decide +kernel)).2.2⟩

/-- A group whose text begins with a byte order mark that does not begin its bytes. -/
def markedGroup : List UInt8 :=
  [0x00, 0xEF, 0xBB, 0xBF] ++ ModelProxy.Utf8.encode "--token abc".toList

/-- **A mark the terminal shows is lost** where its line is masked. -/
theorem masked_stream_drops_mark :
    Grouped 64 .default [markedGroup] ∧
      (∀ n ∈ liveInputs (.new (classOf [])) 0
        ((cleanedLines (stream [markedGroup])).zip [(markedGroup ++ [lfByte]).length]),
        n ≤ maxStateInputBytes) ∧
      cleanedLines ((withLimit [] 64).maskChunks [stream [markedGroup]]) ≠
        (maskedLines (.new (classOf [])) (cleanedLines (stream [markedGroup]))).map Prod.fst := by
  decide +kernel

end StreamMasker

end ModelProxy.Output
