import ModelProxy.StreamMasker
import ModelProxy.TerminalGroups

/-! # The steps of the stream masker

What one byte does: it may find the held bytes at the limit, and then it ends the group or
joins it.  Most of a step only changes how the masker goes on scanning.
-/
namespace ModelProxy.Output
open Redact Terminal List Transducer

/-! ## Rendered lines -/

variable {r : Rendered} {b : UInt8}

section Rendered
variable {P : Char → Prop}

theorem Rendered.mem_line (hsh : ∀ c, Shown c → P c) {raw : List Char} (hw : ∀ c ∈ raw, P c)
    (hr : ∀ c ∈ r.text, P c) : ∀ c ∈ (r.line raw).text, P c := by
  intro c hc
  have hbo : ∀ c ∈ lineBody raw, P c :=
    fun c hc => hw c ((lineBody_start raw).subset hc)
  have htx : (r.line raw).text = r.text ++ (r.masker.maskLineCounted (lineBody raw)).2.1 ++
      raw.drop (lineBody raw).length := rfl
  rw [htx, mem_append, mem_append] at hc
  rcases hc with (hc | hc) | hc
  · exact hr c hc
  · rcases mem_maskLineCounted hc with hc | hc
    · exact hbo c hc
    · exact hsh c hc
  · exact hw c (mem_of_mem_drop hc)

/-- The rendered text has the characters of its lines and characters that are shown. -/
theorem Rendered.mem_foldl (hsh : ∀ c, Shown c → P c) {raws : List (List Char)}
    (hra : ∀ raw ∈ raws, ∀ c ∈ raw, P c) (hr : ∀ c ∈ r.text, P c) :
    ∀ c ∈ (raws.foldl Rendered.line r).text, P c := by
  induction raws generalizing r with
  | nil => exact hr
  | cons raw raws ih =>
    exact ih (fun raw' hr' => hra raw' (by simp [hr']))
      (Rendered.mem_line hsh (hra raw (by simp)) hr)

end Rendered

/-! ## Steps -/

namespace StreamMasker

theorem mem_rendered {P : Char → Prop} (hsh : ∀ c, Shown c → P c) {s : StreamMasker}
    (hl : ∀ c ∈ s.cleaned, P c) : ∀ c ∈ s.rendered.text, P c := by
  refine Rendered.mem_foldl hsh (fun raw hr c hc => ?_) (by simp)
  unfold lines at hr
  split at hr
  · rw [mem_singleton.mp hr] at hc
    cases hc
  · have hm : c ∈ (splitInclusive '\n' s.cleaned).flatten := mem_flatten.mpr ⟨raw, hr, hc⟩
    rw [splitInclusive_flatten] at hm
    exact hl c hm

/-- What a masker holds, apart from how it scans. -/
structure Held where
  pending : List UInt8
  cleaned : List Char
  terminal : TerminalByteState
  opaqueLine : Bool
  finished : Bool
  holdLimit : ℕ

section Steps
variable (s : StreamMasker)

/-- What the masker holds back. -/
def holds : Held := ⟨s.pending, s.cleaned, s.terminal, s.opaqueLine, s.finished, s.holdLimit⟩

theorem scanPiece_holds : s.scanPiece.holds = { s.holds with pending := [], cleaned := [] } := by
  unfold scanPiece
  dsimp only
  split
  · split <;> rfl
  · rfl

/-- A piece of an overlong line may make the stream opaque. -/
theorem scanPiece_mode : s.scanPiece.mode = s.mode ∨
    s.mode = .overlongLine ∧ s.scanPiece.mode = .opaqueStream := by
  unfold scanPiece
  dsimp only
  split
  next hmd =>
    split
    · exact .inr ⟨hmd, rfl⟩
    · exact .inl rfl
  · exact .inl rfl

theorem recover_holds : s.recover.holds = s.holds := by
  unfold recover
  dsimp only
  split <;> rfl

theorem recover_mode : s.recover.mode ≠ .overlongLine := by
  unfold recover
  dsimp only
  split
  · exact Mode.noConfusion
  · exact Mode.noConfusion

theorem emitGroup_hidden (h : s.mode ≠ .scanning) : s.emitGroup = (s.scanPiece, []) := by
  unfold emitGroup
  rw [if_pos h]

theorem emitGroup_holds : ∃ opaqueLine, s.emitGroup.1.holds =
    { s.holds with pending := [], cleaned := [], opaqueLine := opaqueLine } := by
  by_cases h : s.mode = .scanning
  · unfold emitGroup
    rw [if_neg (not_not.mpr h)]
    split <;> exact ⟨_, rfl⟩
  · rw [emitGroup_hidden s h]
    exact ⟨s.opaqueLine, s.scanPiece_holds⟩

theorem overflow_hidden (h : s.mode ≠ .scanning) : s.overflow = (s.scanPiece, []) := by
  unfold overflow
  rw [if_neg h]

/-- What an overflow leaves held. -/
theorem overflow_scanning (h : s.mode = .scanning) :
    s.overflow.1.holds = { s.holds with
      pending := []
      cleaned := []
      opaqueLine := (run emitOpaque s.opaqueLine s.pending).1 } ∧
    s.overflow.2 = (run emitOpaque s.opaqueLine s.pending).2 ∧
    s.overflow.1.mode ≠ .scanning := by
  unfold overflow
  rw [if_pos h]
  refine ⟨scanPiece_holds _, rfl, ?_⟩
  intro hmd
  rcases scanPiece_mode _ with hsm | ⟨-, hs⟩
  · rw [hmd] at hsm
    split at hsm <;> cases hsm
  · rw [hmd] at hs
    cases hs

/-- The byte does not fit into what may be held. -/
def Full (byte : UInt8) : Prop :=
  s.pending.length = s.holdLimit ∧ ¬ (byte = lfByte ∧ s.terminal.atBoundary)

instance (byte : UInt8) : Decidable (s.Full byte) :=
  inferInstanceAs (Decidable (_ ∧ ¬ (_ ∧ _)))

/-- The masker with room for a byte, and what it gives up for it. -/
def room (byte : UInt8) : StreamMasker × List UInt8 :=
  if s.Full byte then s.overflow else (s, [])

theorem room_kept (b : UInt8) : (s.room b).1.terminal = s.terminal ∧
    (s.room b).1.finished = s.finished ∧ (s.room b).1.holdLimit = s.holdLimit := by
  unfold room
  split
  · have hh : ∃ opaqueLine, s.overflow.1.holds =
        { s.holds with pending := [], cleaned := [], opaqueLine := opaqueLine } := by
      by_cases h : s.mode = .scanning
      · exact ⟨_, (s.overflow_scanning h).1⟩
      · rw [s.overflow_hidden h]
        exact ⟨_, s.scanPiece_holds⟩
    obtain ⟨opaqueLine, hh⟩ := hh
    exact ⟨congrArg Held.terminal hh, congrArg Held.finished hh, congrArg Held.holdLimit hh⟩
  · exact ⟨rfl, rfl, rfl⟩

/-- The masker with a byte read by the terminal. -/
def reads (byte : UInt8) : StreamMasker :=
  { (s.room byte).1 with
    terminal := (s.terminal.decode byte).1
    cleaned := (s.room byte).1.cleaned ++ (s.terminal.decode byte).2 }

/-- The byte ends a group. -/
def Ends (byte : UInt8) : Prop := byte = lfByte ∧ (s.terminal.decode byte).1.atBoundary

instance (byte : UInt8) : Decidable (s.Ends byte) := inferInstanceAs (Decidable (_ ∧ _))

/-- The masker when the line feed that ends a group is read. -/
def closing : StreamMasker :=
  { s.reads lfByte with cleaned := (s.reads lfByte).cleaned.dropLast }

/-- The masker at the end of a group, and what the group shows. -/
def group : StreamMasker × List UInt8 := s.closing.emitGroup

/-- **What one byte does.** -/
theorem pushByte_eq (b : UInt8) : pushByte s b =
    if s.Ends b then
      (if s.group.1.mode = .overlongLine then recover { s.group.1 with opaqueLine := false }
        else { s.group.1 with opaqueLine := false }, (s.room b).2 ++ s.group.2 ++ [b])
    else
      let shown : Bool × List UInt8 :=
        if (s.room b).1.mode ≠ .scanning then emitOpaque (s.room b).1.opaqueLine b
        else ((s.room b).1.opaqueLine, [])
      ({ s.reads b with
          opaqueLine := shown.1, pending := (s.room b).1.pending ++ [b] },
        (s.room b).2 ++ shown.2) := by
  have htr := (s.room_kept b).1
  have hfd : pushByte s b =
      if b = lfByte ∧ ((s.room b).1.terminal.decode b).1.atBoundary then
        let group := emitGroup { (s.room b).1 with
          terminal := ((s.room b).1.terminal.decode b).1
          cleaned := ((s.room b).1.cleaned ++ ((s.room b).1.terminal.decode b).2).dropLast }
        (if group.1.mode = .overlongLine then recover { group.1 with opaqueLine := false }
          else { group.1 with opaqueLine := false }, (s.room b).2 ++ group.2 ++ [b])
      else
        let shown : Bool × List UInt8 :=
          if (s.room b).1.mode ≠ .scanning then emitOpaque (s.room b).1.opaqueLine b
          else ((s.room b).1.opaqueLine, [])
        ({ (s.room b).1 with
            terminal := ((s.room b).1.terminal.decode b).1
            cleaned := (s.room b).1.cleaned ++ ((s.room b).1.terminal.decode b).2
            opaqueLine := shown.1
            pending := (s.room b).1.pending ++ [b] }, (s.room b).2 ++ shown.2) := rfl
  rw [hfd, htr]
  by_cases hnd : s.Ends b
  · obtain ⟨rfl, hbd⟩ := hnd
    rfl
  · have hn : ¬ (b = lfByte ∧ (s.terminal.decode b).1.atBoundary = true) := hnd
    rw [if_neg hn, if_neg hnd]
    rfl

theorem group_holds : ∃ opaqueLine, s.group.1.holds =
    ⟨[], [], (s.terminal.decode lfByte).1, opaqueLine, s.finished, s.holdLimit⟩ := by
  obtain ⟨opaqueLine, h⟩ := s.closing.emitGroup_holds
  obtain ⟨-, hf, hl⟩ := s.room_kept lfByte
  refine ⟨opaqueLine, h.trans ?_⟩
  simp only [holds, closing, reads, hf, hl]

/-- A byte that ends a group leaves nothing held. -/
theorem pushByte_ends (h : s.Ends b) :
    (pushByte s b).1.holds =
        ⟨[], [], (s.terminal.decode b).1, false, s.finished, s.holdLimit⟩ ∧
      (pushByte s b).1.mode ≠ .overlongLine ∧
      (pushByte s b).2 = (s.room b).2 ++ s.group.2 ++ [b] := by
  obtain ⟨opaqueLine, hh⟩ := s.group_holds
  have hc : holds { s.group.1 with opaqueLine := false } =
      ⟨[], [], (s.terminal.decode b).1, false, s.finished, s.holdLimit⟩ := by
    have hs : holds { s.group.1 with opaqueLine := false } =
        { s.group.1.holds with opaqueLine := false } := rfl
    rw [hs, hh, h.1]
  rw [pushByte_eq, if_pos h]
  refine ⟨?_, ?_, rfl⟩
  · dsimp only
    split
    · rw [recover_holds, hc]
    · exact hc
  · dsimp only
    split
    · exact recover_mode _
    next hmd => exact hmd

/-- A byte that does not end a group joins it. -/
theorem pushByte_joins (h : ¬ s.Ends b) :
    (pushByte s b).1.pending = (s.room b).1.pending ++ [b] ∧
      (pushByte s b).1.cleaned = (s.room b).1.cleaned ++ (s.terminal.decode b).2 ∧
      (pushByte s b).1.mode = (s.room b).1.mode ∧
      (pushByte s b).1.opaqueLine =
        (if (s.room b).1.mode ≠ .scanning then (emitOpaque (s.room b).1.opaqueLine b).1
        else (s.room b).1.opaqueLine) ∧
      (pushByte s b).2 = (s.room b).2 ++
        if (s.room b).1.mode ≠ .scanning then (emitOpaque (s.room b).1.opaqueLine b).2
        else [] := by
  rw [pushByte_eq, if_neg h]
  refine ⟨rfl, rfl, rfl, ?_⟩
  split <;> exact ⟨rfl, rfl⟩

/-- What every byte keeps, and what it does to the terminal. -/
theorem pushByte_kept (b : UInt8) :
    (pushByte s b).1.terminal = (s.terminal.decode b).1 ∧ (pushByte s b).1.finished = s.finished ∧
      (pushByte s b).1.holdLimit = s.holdLimit := by
  by_cases h : s.Ends b
  · obtain ⟨hh, -, -⟩ := s.pushByte_ends h
    exact ⟨congrArg Held.terminal hh, congrArg Held.finished hh, congrArg Held.holdLimit hh⟩
  · obtain ⟨-, hf, hl⟩ := s.room_kept b
    rw [pushByte_eq, if_neg h]
    exact ⟨rfl, hf, hl⟩

/-- Over any bytes the terminal reads them all. -/
theorem run_kept (bs : List UInt8) :
    (run pushByte s bs).1.terminal = (run TerminalByteState.decode s.terminal bs).1 ∧
      (run pushByte s bs).1.finished = s.finished ∧
      (run pushByte s bs).1.holdLimit = s.holdLimit := by
  induction bs generalizing s with
  | nil => exact ⟨rfl, rfl, rfl⟩
  | cons b bs ih =>
    obtain ⟨htr, hf, hl⟩ := s.pushByte_kept b
    obtain ⟨htr', hf', hl'⟩ := ih (pushByte s b).1
    rw [htr] at htr'
    exact ⟨htr', hf'.trans hf, hl'.trans hl⟩

/-- A finished masker takes nothing more. -/
theorem run_push_finished (h : s.finished = true) (cs : List (List UInt8)) :
    run push s cs = (s, []) := by
  induction cs with
  | nil => rfl
  | cons chunk cs ih =>
    have hpu : s.push chunk = (s, []) := if_pos h
    rw [run_cons, hpu, ih]
    rfl

/-- **Chunks make no difference.** -/
theorem run_push (h : s.finished = false) (cs : List (List UInt8)) :
    run push s cs = run pushByte s cs.flatten := by
  induction cs generalizing s with
  | nil => rfl
  | cons chunk cs ih =>
    have hpu : s.push chunk = run pushByte s chunk := by
      rw [push, if_neg (by simp [h])]
    have hop := (s.run_kept chunk).2.1.trans h
    rw [run_cons, hpu, ih _ hop, flatten_cons, run_append]

end Steps

end StreamMasker

end ModelProxy.Output
