import ModelProxy.StreamSteps

/-! # What opaque output shows

A group too long to hold, and everything once a stream is opaque, comes out as its carriage
returns, its line feeds and one marker for the first other byte of a line.  In every mode a
line feed goes out for each that comes in, and no more is held than the limit.
-/
namespace ModelProxy.Output
open Redact Terminal List Transducer StreamMasker

/-! ## Outlines -/

/-- What opaque output keeps of its input. -/
inductive Mark
  | cr | lf
  /-- Other bytes, as many as there are in a row. -/
  | run
deriving DecidableEq, Repr

/-- The CR/LF skeleton of some bytes. -/
def outline : List UInt8 → List Mark
  | [] => []
  | byte :: bytes =>
    if byte = crByte then .cr :: outline bytes
    else if byte = lfByte then .lf :: outline bytes
    else
      match outline bytes with
      | .run :: marks => .run :: marks
      | marks => .run :: marks

/-- Opaque output by outlines. -/
def emitMark : Transducer Bool Mark UInt8 := fun started mark =>
  match mark with
  | .cr => (started, [crByte])
  | .lf => (false, [lfByte])
  | .run => (true, if started then [] else lineMarker)

/-- **Opaque output depends on the outline alone.** -/
theorem run_emitOpaque (started : Bool) (bs : List UInt8) :
    run emitOpaque started bs = run emitMark started (outline bs) := by
  induction bs generalizing started with
  | nil => rfl
  | cons b bs ih =>
    rw [run_cons, ih, outline]
    by_cases hcr : b = crByte
    · subst hcr
      rfl
    by_cases hlf : b = lfByte
    · subst hlf
      rw [if_neg hcr, if_pos rfl, run_cons]
      simp [emitOpaque, emitMark, hcr]
    · have ho : emitOpaque started b = emitMark started .run := by
        simp only [emitOpaque, emitMark, hcr, hlf, if_false]
        cases started <;> rfl
      rw [if_neg hcr, if_neg hlf, ho]
      -- A run that goes on writes nothing more.
      split
      next marks hmr =>
        rw [hmr, run_cons, run_cons]
        simp [emitMark]
      · rw [run_cons]

theorem count_emitOpaque (started : Bool) (b : UInt8) :
    (emitOpaque started b).2.count lfByte = [b].count lfByte := by
  have hmk : lineMarker.count lfByte = 0 := by decide
  unfold emitOpaque
  split
  · rfl
  split
  · rfl
  next hlf =>
  rw [count_singleton, beq_eq_false_iff_ne.mpr hlf]
  cases started
  · exact hmk
  · rfl

/-- Opaque output has a line feed for each that comes in. -/
theorem count_run_emitOpaque (started : Bool) (bs : List UInt8) :
    (run emitOpaque started bs).2.count lfByte = bs.count lfByte := by
  induction bs generalizing started with
  | nil => rfl
  | cons b bs ih =>
    rw [run_cons, count_append, ih, count_emitOpaque, ← count_append]
    rfl

namespace StreamMasker

/-! ## Lines that are opaque -/

section
variable {s : StreamMasker}

theorem scanPiece_hidden (h : s.mode ≠ .scanning) : s.scanPiece.mode ≠ .scanning ∧
    (s.mode = .opaqueStream → s.scanPiece.mode = .opaqueStream) := by
  rcases s.scanPiece_mode with hsm | ⟨-, hs⟩
  · rw [hsm]
    exact ⟨h, id⟩
  · rw [hs]
    exact ⟨Mode.noConfusion, fun _ => rfl⟩

theorem room_hidden (h : s.mode ≠ .scanning) (b : UInt8) :
    (s.room b).2 = [] ∧ (s.room b).1.opaqueLine = s.opaqueLine ∧ (s.room b).1.mode ≠ .scanning ∧
      (s.mode = .opaqueStream → (s.room b).1.mode = .opaqueStream) := by
  unfold room
  split
  · rw [s.overflow_hidden h]
    obtain ⟨hmd, hs⟩ := scanPiece_hidden h
    exact ⟨rfl, congrArg Held.opaqueLine s.scanPiece_holds, hmd, hs⟩
  · exact ⟨rfl, rfl, h, id⟩

/-- **A byte of an opaque line shows what opaque output shows of it**, and an opaque stream
stays one. -/
theorem pushByte_hidden (h : s.mode ≠ .scanning) (b : UInt8) :
    (pushByte s b).2 = (emitOpaque s.opaqueLine b).2 ∧
      (pushByte s b).1.opaqueLine = (emitOpaque s.opaqueLine b).1 ∧
      (¬ s.Ends b → (pushByte s b).1.mode ≠ .scanning) ∧
      (s.mode = .opaqueStream → (pushByte s b).1.mode = .opaqueStream) := by
  obtain ⟨ho, hln, hmd, ht⟩ := room_hidden h b
  by_cases hnd : s.Ends b
  · obtain ⟨hh, -, hsh⟩ := s.pushByte_ends hnd
    obtain rfl := hnd.1
    have hg : s.group = (s.closing.scanPiece, []) := s.closing.emitGroup_hidden hmd
    refine ⟨?_, congrArg Held.opaqueLine hh, fun hn => absurd hnd hn, ?_⟩
    · rw [hsh, ho, hg]
      rfl
    intro hs
    have hmd' : s.group.1.mode = .opaqueStream := by
      rw [hg]
      exact (scanPiece_hidden (s := s.closing) hmd).2 (ht hs)
    rw [pushByte_eq, if_pos hnd]
    rw [if_neg (by rw [hmd']; exact Mode.noConfusion)]
    exact hmd'
  · obtain ⟨-, -, hmd', hln', hsh⟩ := s.pushByte_joins hnd
    rw [if_pos hmd, hln] at hln' hsh
    refine ⟨?_, hln', fun _ => by rwa [hmd'], fun hs => by rw [hmd', ht hs]⟩
    rw [hsh, ho]
    rfl

/-- **An opaque stream shows the outline of its input.** -/
theorem run_hidden (h : s.mode = .opaqueStream) (bs : List UInt8) :
    (run pushByte s bs).2 = (run emitOpaque s.opaqueLine bs).2 ∧
      (run pushByte s bs).1.mode = .opaqueStream := by
  induction bs generalizing s with
  | nil => exact ⟨rfl, h⟩
  | cons b bs ih =>
    obtain ⟨ho, hln, -, hs⟩ :=
      pushByte_hidden (s := s) (by rw [h]; exact Mode.noConfusion) b
    obtain ⟨hr, hmd⟩ := ih (hs h)
    rw [run_cons, run_cons]
    refine ⟨?_, hmd⟩
    rw [ho, hr, hln]

/-- The end of an opaque stream shows nothing. -/
theorem finish_hidden (h : s.mode ≠ .scanning) : s.finish.2 = [] := by
  have hg (t : StreamMasker) (ht : t.mode = s.mode) : t.emitGroup.2 = [] := by
    rw [t.emitGroup_hidden (ht ▸ h)]
  unfold finish
  split
  · rfl
  dsimp only
  split
  · rfl
  · exact hg _ rfl

theorem maskChunks_hidden (h : s.mode = .opaqueStream) (hop : s.finished = false)
    (cs : List (List UInt8)) : s.maskChunks cs =
      (run emitMark s.opaqueLine (outline cs.flatten)).2 := by
  obtain ⟨ho, hmd⟩ := run_hidden h cs.flatten
  unfold maskChunks
  rw [s.run_push hop]
  dsimp only
  rw [ho, finish_hidden (by rw [hmd]; exact Mode.noConfusion), append_nil, run_emitOpaque]

end

/-! ## Groups too long to hold -/

/-- The bytes of a group before the line feed that ends it, read from a terminal state. -/
structure Group (terminal : TerminalByteState) (content : List UInt8) : Prop where
  inside : ∀ front, front ++ [lfByte] <+: content →
    (Transducer.run TerminalByteState.decode terminal (front ++ [lfByte])).1.atBoundary = false
  ends : (Transducer.run TerminalByteState.decode terminal
    (content ++ [lfByte])).1.atBoundary = true

/-- Where the terminal stands after a stream. -/
def terminalAfter (stream : List UInt8) : TerminalByteState :=
  (Transducer.run TerminalByteState.decode .default stream).1

/-- A group starts behind this stream: it is empty, or its last byte ends a group. -/
def GroupStart (stream : List UInt8) : Prop :=
  stream = [] ∨ ∃ front, stream = front ++ [lfByte] ∧ (terminalAfter stream).atBoundary = true

section Groups
variable {s : StreamMasker} {txt out : List UInt8}

/-- Part of a group is read: all of it is held, or it is shown as opaque output. -/
structure Joined (s : StreamMasker) (content out : List UInt8) : Prop where
  held : s.mode = .scanning → out = [] ∧ s.pending = content ∧ s.opaqueLine = false ∧
    content.length ≤ s.holdLimit
  hidden : s.mode ≠ .scanning → out = (Transducer.run emitOpaque false content).2 ∧
    s.opaqueLine = (Transducer.run emitOpaque false content).1

theorem run_emitOpaque_concat (started : Bool) (txt : List UInt8) (b : UInt8) :
    run emitOpaque started (txt ++ [b]) =
      ((emitOpaque (run emitOpaque started txt).1 b).1, (run emitOpaque started txt).2 ++
          (emitOpaque (run emitOpaque started txt).1 b).2) := by
  rw [run_append, run_cons, run_nil, append_nil]

/-- One more byte of a group. -/
theorem Joined.pushByte (h : Joined s txt out) {b : UInt8} (hnd : ¬ s.Ends b) :
    Joined (pushByte s b).1 (txt ++ [b]) (out ++ (pushByte s b).2) := by
  by_cases hmd : s.mode = .scanning
  · obtain ⟨rfl, hpn, hln, hn⟩ := h.held hmd
    by_cases hf : s.Full b
    · -- The limit is crossed: what was held comes out, opaque.
      obtain ⟨hh, ho, hmd'⟩ := s.overflow_scanning hmd
      have hrm : s.room b = s.overflow := if_pos hf
      obtain ⟨-, -, ha, hl, hsh⟩ := s.pushByte_joins hnd
      rw [hrm] at ha hl hsh
      rw [if_pos hmd'] at hl hsh
      have hln' : s.overflow.1.opaqueLine =
          (run emitOpaque false txt).1 := by
        rw [← hpn, ← hln]
        exact congrArg Held.opaqueLine hh
      rw [← ha] at hmd'
      refine ⟨fun h => absurd h hmd', fun _ => ?_⟩
      rw [run_emitOpaque_concat, hl, hsh, hln', ho, hpn, hln]
      exact ⟨rfl, rfl⟩
    · have hrm : s.room b = (s, []) := if_neg hf
      -- The byte would have ended the group, had it come at the limit and fitted.
      have hlt : txt.length < s.holdLimit := by
        by_contra hge
        have hm : s.pending.length = s.holdLimit := by
          rw [hpn]
          omega
        apply hf
        refine ⟨hm, fun hbd => hnd ⟨hbd.1, ?_⟩⟩
        rw [hbd.1]
        exact atBoundary_lf hbd.2
      obtain ⟨hp, -, ha, hl, hsh⟩ := s.pushByte_joins hnd
      rw [hrm] at hp ha hl hsh
      rw [if_neg (not_not.mpr hmd)] at hl hsh
      refine ⟨fun _ => ?_, fun h => absurd (ha.trans hmd) h⟩
      rw [(s.pushByte_kept b).2.2, hp, hl, hsh, hpn, length_append, length_singleton]
      exact ⟨rfl, rfl, hln, hlt⟩
  · obtain ⟨rfl, hln⟩ := h.hidden hmd
    obtain ⟨ho, hln', hmd', -⟩ := pushByte_hidden hmd b
    refine ⟨fun h => absurd h (hmd' hnd), fun _ => ?_⟩
    rw [run_emitOpaque_concat, ho, hln', hln]
    exact ⟨rfl, rfl⟩

theorem ends_iff (front : List UInt8) (b : UInt8) :
    (run pushByte s front).1.Ends b ↔ b = lfByte ∧ (run TerminalByteState.decode s.terminal
        (front ++ [b])).1.atBoundary = true := by
  unfold Ends
  rw [(s.run_kept front).1, run_append, run_cons]
  rfl

/-- All the bytes of a group. -/
theorem joined_run (hst : Joined s [] []) (hg : Group s.terminal txt) :
    Joined (run pushByte s txt).1 txt
      (run pushByte s txt).2 := by
  have hin := hg.inside
  clear hg
  induction txt using reverseRecOn with
  | nil => exact hst
  | append_singleton front b ih =>
    have hf := ih fun front' h => hin front' (h.trans (prefix_append _ _))
    rw [run_append, run_cons, run_nil, append_nil]
    refine hf.pushByte fun hnd => ?_
    obtain ⟨rfl, hbd⟩ := (ends_iff front b).mp hnd
    rw [hin front (prefix_refl _)] at hbd
    cases hbd

/-- **A group longer than may be held shows its outline.** -/
theorem run_group (hst : Joined s [] []) (hg : Group s.terminal txt)
    (hlo : s.holdLimit < txt.length) :
    (run pushByte s (txt ++ [lfByte])).2 = (run emitMark false (outline (txt ++ [lfByte]))).2 := by
  have hj := joined_run hst hg
  have hl := (s.run_kept txt).2.2
  have hmd : (run pushByte s txt).1.mode ≠ .scanning := by
    intro hs
    obtain ⟨-, -, -, hn⟩ := hj.held hs
    omega
  obtain ⟨ho, hln⟩ := hj.hidden hmd
  rw [← run_emitOpaque, run_emitOpaque_concat, run_append, run_cons,
    run_nil, append_nil, ho, (pushByte_hidden hmd lfByte).1, hln]

/-- Nothing is held where a group starts. -/
theorem joined_start (cmd : List Char) (holdLimit : ℕ) {pre : List UInt8} (h : GroupStart pre) :
    Joined (run pushByte (withLimit cmd holdLimit) pre).1 [] [] := by
  have he : (run pushByte (withLimit cmd holdLimit) pre).1.pending =
      [] ∧ (run pushByte (withLimit cmd holdLimit) pre).1.opaqueLine = false := by
    rcases h with rfl | ⟨front, rfl, hbd⟩
    · exact ⟨rfl, rfl⟩
    · have hnd := (ends_iff (s := withLimit cmd holdLimit) front lfByte).mpr ⟨rfl, hbd⟩
      obtain ⟨hh, -, -⟩ := pushByte_ends _ hnd
      rw [run_append, run_cons, run_nil]
      exact ⟨congrArg Held.pending hh, congrArg Held.opaqueLine hh⟩
  exact ⟨fun _ => ⟨rfl, he.1, he.2, Nat.zero_le _⟩, fun _ => ⟨rfl, he.2⟩⟩

end Groups

/-! ## Line feeds and what is held -/

/-- The line feeds that are still to come out. -/
def heldLineFeeds (s : StreamMasker) : ℕ :=
  if s.mode = .scanning then s.pending.count lfByte else 0

/-- The terminal shows a line feed only where one is held. -/
structure Fed (s : StreamMasker) : Prop where
  terminal : s.terminal.Proper
  lineFeed : '\n' ∈ s.cleaned → lfByte ∈ s.pending

section LineFeeds
variable {s : StreamMasker}

theorem heldLineFeeds_hidden (h : s.mode ≠ .scanning) : s.heldLineFeeds = 0 := if_neg h

/-- **A group shows a line feed for each it holds.** -/
theorem emitGroup_count (h : '\n' ∈ s.cleaned → lfByte ∈ s.pending) :
    s.emitGroup.2.count lfByte = s.heldLineFeeds := by
  by_cases hmd : s.mode = .scanning
  · rw [heldLineFeeds, if_pos hmd, emitGroup, if_neg (not_not.mpr hmd)]
    unfold shownGroup
    split
    · rfl
    split
    · exact count_run_emitOpaque _ _
    next hno =>
    -- No line feed is held, so the terminal shows none and the tokens add none.
    have hl : ∀ c ∈ s.cleaned, c ≠ '\n' := by
      rintro c hc rfl
      exact hno (h hc)
    have hsh : ∀ c, Shown c → c ≠ '\n' := by
      rintro c hc rfl
      exact absurd hc (by decide)
    have htx : lfByte ∉ ModelProxy.Utf8.encode s.rendered.text := by
      rw [lfByte_mem_encode]
      exact fun hm => mem_rendered hsh hl _ hm rfl
    have hr (n : ℕ) : lfByte ∉ replicate n crByte := by
      intro hm
      exact absurd (eq_of_mem_replicate hm) (by decide)
    rw [count_append, count_eq_zero.mpr htx, count_eq_zero.mpr (hr _), count_eq_zero.mpr hno]
  · rw [heldLineFeeds_hidden hmd, s.emitGroup_hidden hmd]
    rfl

theorem room_count (b : UInt8) :
    (s.room b).2.count lfByte + (s.room b).1.heldLineFeeds = s.heldLineFeeds := by
  unfold room
  split
  · by_cases hmd : s.mode = .scanning
    · obtain ⟨-, ho, hmd'⟩ := s.overflow_scanning hmd
      rw [heldLineFeeds_hidden hmd', ho, count_run_emitOpaque, heldLineFeeds, if_pos hmd]
      rfl
    · rw [s.overflow_hidden hmd, heldLineFeeds_hidden hmd,
        heldLineFeeds_hidden (scanPiece_hidden hmd).1]
      rfl
  · exact zero_add _

theorem overflow_cleared (s : StreamMasker) :
    s.overflow.1.pending = [] ∧ s.overflow.1.cleaned = [] := by
  by_cases hmd : s.mode = .scanning
  · have hhd := (s.overflow_scanning hmd).1
    exact ⟨congrArg Held.pending hhd, congrArg Held.cleaned hhd⟩
  · rw [s.overflow_hidden hmd]
    have hhd := s.scanPiece_holds
    exact ⟨congrArg Held.pending hhd, congrArg Held.cleaned hhd⟩

theorem Fed.room (h : s.Fed) (b : UInt8) : (s.room b).1.Fed := by
  refine ⟨by rw [(s.room_kept b).1]; exact h.terminal, ?_⟩
  unfold StreamMasker.room
  split
  · rw [s.overflow_cleared.2]
    exact fun hm => absurd hm not_mem_nil
  · exact h.lineFeed

/-- The step lemma of `Fed`. -/
theorem Fed.pushByte (h : s.Fed) (b : UInt8) : (pushByte s b).1.Fed := by
  refine ⟨by rw [(s.pushByte_kept b).1]; exact h.terminal.decode b, ?_⟩
  by_cases hnd : s.Ends b
  · have hc : (StreamMasker.pushByte s b).1.cleaned = [] :=
      congrArg Held.cleaned (s.pushByte_ends hnd).1
    rw [hc]
    exact fun hm => absurd hm not_mem_nil
  · obtain ⟨hpn, hc, -⟩ := s.pushByte_joins hnd
    rw [hpn, hc]
    intro hm
    rcases mem_append.mp hm with hm | hm
    · exact mem_append_left _ ((h.room b).lineFeed hm)
    · rw [lf_of_mem_decode h.terminal hm]
      exact mem_append_right _ (mem_singleton_self _)

/-- **One byte keeps the line feeds**: those that came out and those still to come are those
that came in. -/
theorem Fed.count (h : s.Fed) (b : UInt8) :
    (StreamMasker.pushByte s b).2.count lfByte + (StreamMasker.pushByte s b).1.heldLineFeeds =
      s.heldLineFeeds + [b].count lfByte := by
  have hrm := room_count (s := s) b
  by_cases hnd : s.Ends b
  · obtain ⟨hhol, -, hout⟩ := s.pushByte_ends hnd
    have hhd : (StreamMasker.pushByte s b).1.heldLineFeeds = 0 := by
      unfold heldLineFeeds
      have hpn : (StreamMasker.pushByte s b).1.pending = [] :=
        congrArg Held.pending hhol
      rw [hpn]
      exact ite_self _
    obtain rfl := hnd.1
    -- The line feed that ends the group is not part of what the group shows.
    have hgro : s.group.2.count lfByte = (s.room lfByte).1.heldLineFeeds := by
      refine (emitGroup_count (s := s.closing) fun hmem => ?_).trans rfl
      obtain ⟨-, cut, htx, hcut⟩ := decode_lf h.terminal (of_decide_eq_true hnd.2).1
      have hcle : s.closing.cleaned = (s.room lfByte).1.cleaned ++ cut := by
        show ((s.room lfByte).1.cleaned ++ (s.terminal.decode lfByte).2).dropLast = _
        rw [htx, ← append_assoc, dropLast_concat]
      rw [hcle] at hmem
      rcases mem_append.mp hmem with hmem | hmem
      · exact (h.room lfByte).lineFeed hmem
      · exact absurd hmem hcut
    rw [hhd, hout, count_append, count_append, hgro]
    omega
  · obtain ⟨hpn, -, hmd', -, hout⟩ := s.pushByte_joins hnd
    rw [hout, count_append, heldLineFeeds, hmd', hpn]
    by_cases hmd : (s.room b).1.mode = .scanning
    · have hhd : (s.room b).1.heldLineFeeds = (s.room b).1.pending.count lfByte :=
        if_pos hmd
      rw [if_neg (not_not.mpr hmd), if_pos hmd, count_append, count_nil]
      omega
    · rw [if_pos hmd, if_neg hmd, count_emitOpaque]
      rw [heldLineFeeds_hidden hmd] at hrm
      omega

/-- Over any bytes no line feed is lost. -/
theorem Fed.run (h : s.Fed) (bs : List UInt8) :
    (run StreamMasker.pushByte s bs).1.Fed ∧ (run StreamMasker.pushByte s bs).2.count lfByte +
          (run StreamMasker.pushByte s bs).1.heldLineFeeds =
        s.heldLineFeeds + bs.count lfByte := by
  induction bs generalizing s with
  | nil => exact ⟨h, zero_add _⟩
  | cons b bs ih =>
    obtain ⟨hf, hc⟩ := ih (h.pushByte b)
    have hby := h.count b
    rw [run_cons]
    refine ⟨hf, ?_⟩
    dsimp only
    have hs : (b :: bs).count lfByte = [b].count lfByte + bs.count lfByte := by
      rw [← count_append]
      rfl
    rw [count_append]
    omega

/-- The end of a stream shows the line feeds still held. -/
theorem Fed.finish (h : s.Fed) (hop : s.finished = false) :
    s.finish.2.count lfByte = s.heldLineFeeds := by
  rw [StreamMasker.finish, if_neg (by simp [hop])]
  dsimp only
  split
  next hno =>
    unfold heldLineFeeds
    have hpn : s.pending = [] := hno
    rw [hpn]
    exact (ite_self _).symm
  · refine (emitGroup_count fun hm => ?_).trans rfl
    rcases mem_append.mp hm with hm | hm
    · exact h.lineFeed hm
    · exact absurd hm (lf_notMem_finishClean h.terminal)

/-- **No more is held than the limit.** -/
theorem pushByte_held (hl : 0 < s.holdLimit) (h : s.pending.length ≤ s.holdLimit)
    (b : UInt8) : (pushByte s b).1.pending.length ≤ s.holdLimit := by
  by_cases hnd : s.Ends b
  · have hpn : (pushByte s b).1.pending = [] :=
      congrArg Held.pending (s.pushByte_ends hnd).1
    rw [hpn]
    exact Nat.zero_le _
  · rw [(s.pushByte_joins hnd).1, length_append, length_singleton]
    unfold room
    split
    · rw [s.overflow_cleared.1]
      exact hl
    next hf =>
    dsimp only
    by_contra hge
    apply hf
    refine ⟨by omega, fun hbd => hnd ⟨hbd.1, ?_⟩⟩
    rw [hbd.1]
    exact atBoundary_lf hbd.2

theorem run_held (hl : 0 < s.holdLimit) (h : s.pending.length ≤ s.holdLimit) (bs : List UInt8) :
    (run pushByte s bs).1.pending.length ≤ s.holdLimit := by
  induction bs generalizing s with
  | nil => exact h
  | cons b bs ih =>
    have hkp := (s.pushByte_kept b).2.2
    have hnx := pushByte_held hl h b
    rw [← hkp] at hl hnx ⊢
    exact ih hl hnx

end LineFeeds

/-- **Overlong and opaque output leaks nothing.**  Two groups that start behind the same stream,
are too long to hold and have one outline show the same; so does what follows in an opaque
stream; and whatever the chunks, a line feed comes out for each that goes in, and no more is
held than the limit. -/
theorem opaque_output (command : List Char) (holdLimit : ℕ) (hlimit : 0 < holdLimit) :
    (∀ before content content' : List UInt8, GroupStart before →
      Group (terminalAfter before) content → Group (terminalAfter before) content' →
      holdLimit < content.length → holdLimit < content'.length →
      outline (content ++ [lfByte]) = outline (content' ++ [lfByte]) →
      let s := ((withLimit command holdLimit).push before).1
      (s.push (content ++ [lfByte])).2 = (s.push (content' ++ [lfByte])).2) ∧
    (∀ (s : StreamMasker) (rest rest' : List (List UInt8)), s.mode = .opaqueStream →
      outline rest.flatten = outline rest'.flatten → s.maskChunks rest = s.maskChunks rest') ∧
    (∀ chunks : List (List UInt8),
      ((withLimit command holdLimit).maskChunks chunks).count lfByte =
          chunks.flatten.count lfByte ∧
        (Transducer.run push (withLimit command holdLimit) chunks).1.held ≤ holdLimit) := by
  have hp {s : StreamMasker} (h : s.finished = false) (bs : List UInt8) :
      s.push bs = Transducer.run StreamMasker.pushByte s bs := by
    rw [push, if_neg (by simp [h])]
  refine ⟨?_, ?_, ?_⟩
  · intro before content content' hst hg hg' hl hn' ho s
    obtain ⟨ht, hf, hl'⟩ := (withLimit command holdLimit).run_kept before
    have hs : s = (Transducer.run StreamMasker.pushByte (withLimit command holdLimit) before).1 :=
      congrArg Prod.fst (hp rfl before)
    have hj := joined_start command holdLimit hst
    rw [← hs] at ht hf hl' hj
    have ht' : s.terminal = terminalAfter before := ht
    have hh : s.holdLimit = holdLimit := hl'
    rw [← ht'] at hg hg'
    rw [hp hf, hp hf, run_group hj hg (by omega), run_group hj hg' (by omega), ho]
  · intro s rest rest' hm ho
    cases hf : s.finished with
    | true => rw [maskChunks, maskChunks, s.run_push_finished hf, s.run_push_finished hf]
    | false => rw [maskChunks_hidden hm hf, maskChunks_hidden hm hf, ho]
  · intro chunks
    have hd : (withLimit command holdLimit).Fed := ⟨proper_default, fun hme => by cases hme⟩
    unfold maskChunks
    rw [run_push _ rfl]
    obtain ⟨hf', hc⟩ := hd.run chunks.flatten
    have hop := ((withLimit command holdLimit).run_kept chunks.flatten).2.1
    refine ⟨?_, run_held hlimit (Nat.zero_le _) _⟩
    rw [count_append, hf'.finish hop, hc]
    exact Nat.zero_add _

/-- Two lines of more than two bytes, and the rest of an opaque stream in other chunks. -/
theorem opaque_output_lines :
    let line := ModelProxy.Utf8.encode "a\rbc".toList
    let line' := ModelProxy.Utf8.encode "xyz\r!".toList
    let s := ((withLimit [] 2).push []).1
    (s.push (line ++ [lfByte])).2 = (s.push (line' ++ [lfByte])).2 ∧
      { s with mode := .opaqueStream }.maskChunks [line] =
        { s with mode := .opaqueStream }.maskChunks [[0x20], line] ∧
      ((withLimit [] 2).maskChunks [line, [lfByte]]).count lfByte = 1 ∧
      (Transducer.run push (withLimit [] 2) [line]).1.held ≤ 2 := by
  intro line line' s
  obtain ⟨hg, hs, hl⟩ := opaque_output [] 2 (by decide)
  have hr : Group (terminalAfter []) line :=
    ⟨fun front h => absurd (h.subset (by simp) : lfByte ∈ line) (by decide), by decide⟩
  have hg' : Group (terminalAfter []) line' :=
    ⟨fun front h => absurd (h.subset (by simp) : lfByte ∈ line') (by decide), by decide⟩
  refine ⟨?_, hs _ _ _ rfl (by decide), ?_, (hl [line]).2⟩
  · exact hg [] line line' (.inl rfl) hr hg' (by decide) (by decide) (by decide)
  · decide

end StreamMasker

end ModelProxy.Output
