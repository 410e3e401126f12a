import ModelProxy.MaskPlacement
import ModelProxy.FileEdits

/-! # Texts and their masked views

A text and its view are the same outside of the spans, and each span says where its hidden
part stands in the text and what is shown for it in the view.  A word found in the view away
from every span is therefore found in the text too, at the position `to_orig` computes.
-/
namespace ModelProxy.Redact
open List LineMasker Utf8
open Utf8 (byteLength byteLength_append)

/-- `Laid written offset text view spans`: the spans lay the view out over the text, where
the view starts at byte `written` and the text at byte `offset`. -/
inductive Laid : ℕ → ℕ → List Char → List Char → List Span → Prop
  | last (written offset : ℕ) (text : List Char) : Laid written offset text text []
  | span {written offset viewAt origAt viewStop origStop : ℕ} {text view : List Char}
      {spans : List Span} (kept hidden shown : List Char) : shown ≠ [] →
      viewAt = written + byteLength kept → origAt = offset + byteLength kept →
      viewStop = viewAt + byteLength shown → origStop = origAt + byteLength hidden →
      Laid viewStop origStop text view spans →
      Laid written offset (kept ++ (hidden ++ text)) (kept ++ (shown ++ view))
        (⟨⟨viewAt, viewStop⟩, ⟨origAt, origStop⟩⟩ :: spans)

section Laid
variable {out off : ℕ} {text view : List Char} {ss : List Span}

/-- The same text in front of both. -/
theorem Laid.prepend (kept : List Char)
    (h : Laid (out + byteLength kept) (off + byteLength kept) text view ss) :
    Laid out off (kept ++ text) (kept ++ view) ss := by
  cases h with
  | last => exact .last out off _
  | span kept' hi shown hsh hvw hor hv ho hr =>
    rw [← append_assoc kept, ← append_assoc kept]
    refine .span (kept ++ kept') hi shown hsh ?_ ?_ hv ho hr
    · rw [hvw, byteLength_append, add_assoc]
    · rw [hor, byteLength_append, add_assoc]

theorem Laid.append {text' view' : List Char} {spans' : List Span} (h : Laid out off text view ss)
    (h' : Laid (out + byteLength view) (off + byteLength text) text' view' spans') :
    Laid out off (text ++ text') (view ++ view') (ss ++ spans') := by
  induction h with
  | last => exact h'.prepend _
  | span kept hi shown hsh hvw hor hv ho _ ih =>
    simp only [append_assoc, cons_append]
    refine .span kept hi shown hsh hvw hor hv ho (ih ?_)
    simp only [byteLength_append, ← add_assoc] at h'
    rwa [hv, ho, hvw, hor]

/-- The hidden parts lie in the text, one behind the other. -/
theorem Laid.within (h : Laid out off text view ss) :
    ∀ span ∈ ss, off ≤ span.orig.start ∧ span.orig.start ≤ span.orig.stop ∧
      span.orig.stop ≤ off + byteLength text := by
  induction h with
  | last => simp
  | span kept hi shown hsh hvw hor hv ho _ ih =>
    intro span hsn
    simp only [byteLength_append]
    rcases mem_cons.mp hsn with rfl | hsn
    · dsimp only
      omega
    · have hl := ih span hsn
      omega

end Laid

/-! ## The view of a text -/

section
variable {line : List Char}

/-- The spans of a line lay its view over the text. -/
theorem laid_placeMasks {masks : List LineMask} {cur : ℕ} (h : Placed line cur masks)
    (hc : Boundary line cur) (out off : ℕ) :
    Laid out (off + cur) (dropBytes cur line) (render line cur masks)
      (placeMasks line off out cur masks) := by
  induction masks generalizing cur out with
  | nil =>
    obtain ⟨pre, after, rfl, rfl⟩ := hc
    have hr : slice (pre ++ after) (byteLength pre) (byteLength (pre ++ after)) =
        after := by
      have hs := slice_append pre after []
      rwa [append_nil, ← byteLength_append] at hs
    rw [render, placeMasks, hr, dropBytes_byteLength]
    exact .last _ _ _
  | cons mask masks ih =>
    obtain ⟨hle, hma, hr⟩ := h
    obtain ⟨hkp, hst⟩ := hc.slice hma.start hle
    obtain ⟨hh, ht⟩ := hma.start.slice hma.stop hma.ordered
    rw [render, placeMasks, hkp, hh, append_assoc]
    exact .span _ _ _ hma.token.ne_nil rfl (by omega) rfl (by omega) (ih hr hma.stop _)

theorem lineBody_append (raw : List Char) :
    lineBody raw ++ raw.drop (lineBody raw).length = raw := by
  have hp := lineBody_start raw
  rw [prefix_iff_eq_append.mp hp]

/-- The spans of the lines lay the view over the text. -/
theorem laid_placeLines (m : LineMasker) (out off : ℕ) (raws : List (List Char)) :
    Laid out off raws.flatten
      ((raws.zip (maskLines m off raws).2).flatMap fun line => viewLine line.1 line.2)
      (placeLines out off raws (maskLines m off raws).2) := by
  induction raws generalizing m out off with
  | nil => exact .last _ _ _
  | cons raw raws ih =>
    have hln : Laid out off raw (viewLine raw (m.scanAt (lineBody raw) off).2)
        (placeMasks (lineBody raw) off out 0 (m.scanAt (lineBody raw) off).2) := by
      have hbo := laid_placeMasks (scanAt_placed m (lineBody raw) off)
        (boundary_zero (lineBody raw)) out off
      have hz : dropBytes 0 (lineBody raw) = lineBody raw := by cases lineBody raw <;> rfl
      rw [hz, add_zero] at hbo
      have ha := hbo.append (.last _ _ (raw.drop (lineBody raw).length))
      rwa [lineBody_append, append_nil] at ha
    exact hln.append (ih _ _ _)

/-- **The spans lay the masked view out over the text.** -/
theorem maskWithLookback_laid (cls : FileClass) (text : List Char) (back : ℕ) :
    Laid 0 0 text (maskWithLookback cls text back).text
      (maskWithLookback cls text back).spans := by
  have h := laid_placeLines (.withLookback cls back) 0 0 (splitInclusive '\n' text)
  rwa [splitInclusive_flatten] at h

end

/-! ## From the view to the text -/

section
variable {α : Type} {test : α → Bool}

theorem partitionPoint_cons (x : α) (list : List α) :
    partitionPoint test (x :: list) = if test x then partitionPoint test list + 1 else 0 := by
  unfold partitionPoint
  rw [takeWhile_cons]
  split <;> rfl

/-- Where a position of the view is in the text, if the text before the spans is `delta` bytes
longer than the view. -/
def origFrom (delta : Int) (spans : List Span) (pos : ℕ) : Int :=
  let idx := partitionPoint (fun span => decide (span.view.stop ≤ pos)) spans
  pos + if idx = 0 then delta else (cumulative delta spans).getD (idx - 1) 0

theorem origFrom_cons (delta : Int) (span : Span) (ss : List Span) (pos : ℕ) :
    origFrom delta (span :: ss) pos =
      if span.view.stop ≤ pos then
        origFrom (delta + (((span.orig.stop - span.orig.start : ℕ) : Int) -
          ((span.view.stop - span.view.start : ℕ) : Int))) ss pos
      else pos + delta := by
  unfold origFrom
  rw [partitionPoint_cons]
  by_cases h : span.view.stop ≤ pos
  · simp only [h, decide_true, if_true, Nat.add_eq_zero_iff, one_ne_zero, and_false, if_false,
      Nat.add_sub_cancel, cumulative]
    generalize partitionPoint _ ss = idx
    cases idx with
    | zero => simp
    | succ idx => simp
  · simp [h]

/-- The span that decides whether a range of the view is touched. -/
def candidate (spans : List Span) (pos : ℕ) : Option Span :=
  spans[partitionPoint (fun span => decide (span.view.stop ≤ pos)) spans]?

theorem candidate_cons (span : Span) (ss : List Span) (pos : ℕ) :
    candidate (span :: ss) pos =
      if span.view.stop ≤ pos then candidate ss pos else some span := by
  unfold candidate
  rw [partitionPoint_cons]
  by_cases h : span.view.stop ≤ pos <;> simp [h]

theorem candidate_behind {ss : List Span} {pos : ℕ} {span : Span}
    (h : span ∈ candidate ss pos) : pos < span.view.stop := by
  induction ss with
  | nil => cases h
  | cons span' ss ih =>
    rw [candidate_cons] at h
    split at h
    · exact ih h
    · cases h
      omega

variable {out off : ℕ} {text view : List Char} {ss : List Span}

/-- **A word of the view that no span touches is a word of the text**, where its position maps
to, and no hidden part is in it. -/
theorem Laid.find (h : Laid out off text view ss) {pre w after : List Char}
    (hvw : view = pre ++ (w ++ after))
    (hfr : ∀ span ∈ candidate ss (out + byteLength pre),
      out + byteLength pre + byteLength w ≤ span.view.start) :
    ∃ before' after', text = before' ++ (w ++ after') ∧
      origFrom (off - out) ss (out + byteLength pre) =
        off + byteLength before' ∧
      origFrom (off - out) ss (out + byteLength pre + byteLength w) =
        off + byteLength before' + byteLength w ∧
      ∀ span ∈ ss, off + byteLength before' + byteLength w ≤ span.orig.start ∨
        span.orig.stop ≤ off + byteLength before' := by
  induction h generalizing pre with
  | last out off text =>
    refine ⟨pre, after, hvw, ?_, ?_, by simp⟩
    · simp only [origFrom, partitionPoint, takeWhile_nil, length_nil, if_true]
      omega
    · simp only [origFrom, partitionPoint, takeWhile_nil, length_nil, if_true]
      omega
  | @span out off viewAt origAt viewStop origStop text view ss kept hi shown hsh
      hviA horA hviS horS hr ih =>
      have hh := byteLength_pos hsh
      rw [candidate_cons] at hfr
      simp only [origFrom_cons]
      by_cases hb : viewStop ≤ out + byteLength pre
      · -- The word stands behind this span.
        rw [if_pos hb] at hfr
        rw [← append_assoc] at hvw
        obtain ⟨before', rfl, hvw'⟩ := append_eq_append_of_le hvw (by
          rw [byteLength_append]
          omega)
        have hat : out + byteLength (kept ++ shown ++ before') =
            viewStop + byteLength before' := by
          simp only [byteLength_append]
          omega
        have hd : ((off : Int) - out) + (((origStop - origAt : ℕ) : Int) -
            ((viewStop - viewAt : ℕ) : Int)) = origStop - viewStop := by
          omega
        rw [hat] at hfr ⊢
        rw [hd]
        obtain ⟨found, after', htx, hst, ht, hs⟩ := ih hvw' hfr
        refine ⟨kept ++ hi ++ found, after', by rw [htx]; simp, ?_, ?_, ?_⟩
        · simp only [byteLength_append]
          omega
        · simp only [byteLength_append]
          omega
        · intro span hsn
          simp only [byteLength_append]
          rcases mem_cons.mp hsn with rfl | hsn
          · dsimp only
            omega
          · have hl := hs span hsn
            omega
      · -- The word ends before this span begins.
        rw [if_neg hb] at hfr
        have hnd := hfr _ rfl
        dsimp only at hnd
        rw [← append_assoc pre] at hvw
        obtain ⟨kept', rfl, -⟩ := append_eq_append_of_le hvw.symm (by
          rw [byteLength_append]
          omega)
        refine ⟨pre, kept' ++ (hi ++ text), by simp, by omega, by omega, ?_⟩
        intro span hsn
        rcases mem_cons.mp hsn with rfl | hsn
        · dsimp only
          omega
        · have hl := hr.within span hsn
          omega

/-- The same through the functions of the view. -/
theorem MaskedView.find {masked : MaskedView} (h : Laid 0 0 text masked.text masked.spans)
    (hc : masked.cum = cumulative 0 masked.spans) {pre w post : List Char}
    (hvw : masked.text = pre ++ (w ++ post)) (hwd : w ≠ [])
    (hfr : masked.overlapsSpan ⟨byteLength pre, byteLength pre + byteLength w⟩ = false) :
    ∃ before' after', text = before' ++ (w ++ after') ∧
      masked.toOrig (byteLength pre) = byteLength before' ∧
      masked.toOrig (byteLength pre + byteLength w) = byteLength before' + byteLength w ∧
      ∀ span ∈ masked.spans, byteLength before' + byteLength w ≤ span.orig.start ∨
        span.orig.stop ≤ byteLength before' := by
  have hpo := byteLength_pos hwd
  have hn : ∀ span ∈ candidate masked.spans (0 + byteLength pre),
      0 + byteLength pre + byteLength w ≤ span.view.start := by
    rw [zero_add]
    intro span hsn
    have hb := candidate_behind hsn
    have hsn' : candidate masked.spans (byteLength pre) = some span := hsn
    simp only [MaskedView.overlapsSpan] at hfr
    rw [candidate] at hsn'
    rw [hsn'] at hfr
    dsimp only at hfr
    rw [if_neg (by omega), decide_eq_true hb, Bool.true_and, decide_eq_false_iff_not] at hfr
    omega
  obtain ⟨before', after', htx, hst, hs, hp⟩ := h.find hvw hn
  have hor (pos : ℕ) : masked.toOrig pos = (origFrom 0 masked.spans pos).toNat := by
    rw [MaskedView.toOrig, hc]
    rfl
  simp only [Nat.zero_add, Nat.cast_zero, Int.sub_zero, Int.zero_add] at hst hs hp
  refine ⟨before', after', htx, ?_, ?_, hp⟩
  · rw [hor, hst, Int.toNat_natCast]
  · rw [hor, hs]
    omega

end

end ModelProxy.Redact
