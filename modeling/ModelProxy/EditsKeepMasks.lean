import ModelProxy.MaskedViews
import ModelProxy.HostValues

/-! # Edits keep what is masked

Every planned range of a request avoids the hidden parts of the file, and the range of an
exact match holds the text that was asked for.  The new text therefore keeps every hidden
byte, shifted by the edits before it, and the last check makes sure it is still masked there.
-/
namespace ModelProxy.FileEdit
open Redact List Utf8
open Utf8 (byteLength byteLength_append)

variable {orig cs old kept : List Char} {news : List (List Char)} {view : MaskedView}
  {newLen n b cursor b' : ℕ} {bytes : List UInt8} {span : Span} {range : ByteRange}

/-! ## What is planned -/

/-- The plan leaves the hidden parts of a view alone. -/
structure Avoids (view : MaskedView) (p : Planned) : Prop where
  ordered : p.orig.start ≤ p.orig.stop
  apart : ∀ span ∈ view.spans, p.orig.stop ≤ span.orig.start ∨ span.orig.stop ≤ p.orig.start

/-- The range of the plan holds this text. -/
def Holds (original : List Char) (p : Planned) (old : List Char) : Prop :=
  ∃ before after, original = before ++ (old ++ after) ∧
    p.orig = ⟨byteLength before, byteLength before + byteLength old⟩

section Plans
variable {plans : List Planned × Int}

/-- A match stands where its index says. -/
theorem mem_matchIndicesFrom {w : List Char} {at_ skip pos : ℕ}
    (h : pos ∈ matchIndicesFrom w at_ skip cs) :
    ∃ before after, cs = before ++ (w ++ after) ∧ pos = at_ + byteLength before := by
  induction cs generalizing at_ skip with
  | nil =>
    rw [matchIndicesFrom] at h
    split at h
    next hwd =>
      subst hwd
      exact ⟨[], [], rfl, mem_singleton.mp h⟩
    · cases h
  | cons c rest ih =>
    have hl {skip : ℕ} (h : pos ∈ matchIndicesFrom w (at_ + byteLength [c]) skip rest) :
        ∃ before after, c :: rest = before ++ (w ++ after) ∧
          pos = at_ + byteLength before := by
      obtain ⟨before, after, hr, hp⟩ := ih h
      refine ⟨c :: before, after, by rw [hr]; rfl, ?_⟩
      have hco : byteLength (c :: before) = byteLength [c] + byteLength before :=
        byteLength_append [c] before
      omega
    rw [matchIndicesFrom] at h
    split at h
    next hm =>
      rcases mem_cons.mp h with rfl | h
      · obtain ⟨after, ha⟩ := hm.2
        exact ⟨[], after, ha.symm, rfl⟩
      · exact hl h
    · exact hl h

/-- **An exact match is found in the file**, away from its hidden parts. -/
theorem planExact_sound (hl : Laid 0 0 orig view.text view.spans)
    (hc : view.cum = cumulative 0 view.spans) (hold : old ≠ []) {i : ℕ} {op : EditOp}
    (h : planExact view old newLen op i = .ok plans) :
    ∀ p ∈ plans.1, p.edit = i ∧ Avoids view p ∧ Holds orig p old := by
  unfold planExact at h
  dsimp only at h
  split at h
  · cases h
  split at h
  · cases h
  obtain ⟨expected, -, h⟩ := bind_eq_ok.mp h
  split at h
  · cases h
  split at h
  · cases h
  next hfr =>
  cases h
  intro p hp
  obtain ⟨at_, hat, rfl⟩ := mem_map.mp hp
  obtain ⟨pre, after, hvw, hs⟩ := mem_matchIndicesFrom (mem_of_mem_take hat)
  rw [zero_add] at hs
  subst hs
  have hcl := find?_eq_none.mp hfr _ hat
  obtain ⟨before', after', htx, hst, ht, hsp⟩ :=
    MaskedView.find hl hc hvw hold (by simpa using hcl)
  refine ⟨rfl, ⟨?_, ?_⟩, before', after', htx, ?_⟩
  · dsimp only
    omega
  · rw [hst, ht]
    exact hsp
  · rw [hst, ht]

theorem lineOffset_le (bytes : List UInt8) {n' : ℕ} (h : n ≤ n') :
    lineOffset bytes n ≤ lineOffset bytes n' := by
  induction bytes generalizing n n' with
  | nil => cases n <;> cases n' <;> simp [lineOffset]
  | cons b bytes ih =>
    cases n with
    | zero => simp [lineOffset]
    | succ n =>
      obtain ⟨n', rfl⟩ : ∃ k, n' = k + 1 := ⟨n' - 1, by omega⟩
      have hln := ih (show n ≤ n' by omega)
      have hr := ih h
      simp only [lineOffset]
      split <;> omega

/-- A line edit that is planned avoids the masks. -/
theorem planLines_sound {start stop i : ℕ}
    (h : planLines view bytes start stop newLen i = .ok plans) :
    ∀ p ∈ plans.1, p.edit = i ∧ Avoids view p := by
  unfold planLines at h
  dsimp only at h
  split at h
  · cases h
  next hr =>
  split at h
  · cases h
  next hc =>
  cases h
  intro p hp
  obtain rfl := mem_singleton.mp hp
  refine ⟨rfl, lineOffset_le bytes (by omega), fun span hsn => ?_⟩
  have hsn' : ¬ (lineStart bytes (start - 1) < span.orig.stop ∧
      span.orig.start < lineStart bytes stop) := by
    intro hin
    refine hc (any_eq_true.mpr ⟨span, hsn, ?_⟩)
    simpa using hin
  dsimp only
  omega

theorem translateEol_ne_nil (h : cs ≠ []) (crlf : Bool) : translateEol cs crlf ≠ [] := by
  unfold translateEol
  split
  · cases cs with
    | nil => exact absurd rfl h
    | cons c cs =>
      rw [translateEolFrom]
      split <;> simp
  · exact h

/-- What every plan of a request does. -/
structure Sound (original : List Char) (view : MaskedView) (crlf : Bool) (edits : List EditOp)
    (p : Planned) : Prop where
  avoids : Avoids view p
  exact : ∃ op, edits[p.edit]? = some op ∧ ∀ old, op.oldText = some old →
    Holds original p (translateEol old crlf)

/-- Every edit that is planned avoids the masks. -/
theorem planEdits_sound (hl : Laid 0 0 orig view.text view.spans)
    (hc : view.cum = cumulative 0 view.spans) {crlf : Bool} {edits : List EditOp}
    (hold : ∀ op ∈ edits, op.oldText ≠ some []) (pre post : List EditOp)
    (he : edits = pre ++ post) (h : planEdits view bytes crlf pre.length post = .ok plans) :
    ∀ p ∈ plans.1, Sound orig view crlf edits p := by
  induction post generalizing pre plans with
  | nil =>
    cases h
    simp
  | cons op post ih =>
    obtain ⟨first, hf, h⟩ := bind_eq_ok.mp h
    obtain ⟨rest, hr, h⟩ := bind_eq_ok.mp h
    cases h
    intro p hp
    rcases mem_append.mp hp with hp | hp
    · have hop : edits[pre.length]? = some op := by
        rw [he, getElem?_append_right le_rfl, Nat.sub_self]
        rfl
      unfold planEdit at hf
      dsimp only at hf
      split at hf
      · cases hf
      split at hf
      next old ho =>
        have hne : translateEol old crlf ≠ [] := by
          refine translateEol_ne_nil (fun hn => ?_) crlf
          exact hold op (by simp [he]) (by rw [ho, hn])
        obtain ⟨hi, ha, hh⟩ := planExact_sound hl hc hne hf p hp
        refine ⟨ha, op, by rw [hi, hop], fun old' hold' => ?_⟩
        rw [ho] at hold'
        cases hold'
        exact hh
      next start stop ho _ _ =>
        obtain ⟨hi, ha⟩ := planLines_sound hf p hp
        refine ⟨ha, op, by rw [hi, hop], fun old' hold' => ?_⟩
        rw [ho] at hold'
        cases hold'
      · cases hf
    · refine ih (pre ++ [op]) (by rw [he]; simp) ?_ p hp
      rw [length_append, length_singleton]
      exact hr

end Plans

/-! ## Shifts -/

/-- Plans one behind the other, from a position on. -/
def InOrder : ℕ → List Planned → Prop
  | _, [] => True
  | cursor, p :: rest =>
    cursor ≤ p.orig.start ∧ p.orig.start ≤ p.orig.stop ∧ InOrder p.orig.stop rest

/-- By how much the edits before a byte shift it. -/
def shiftAt (newTexts : List (List Char)) (planned : List Planned) (b : ℕ) : Int :=
  ((planned.filter fun p => decide (p.orig.stop ≤ b)).map (lengthChange newTexts)).sum

section Shifts
variable {plan : List Planned}

/-- Plans that do not overlap where they follow each other are in order. -/
theorem inOrder_of_not_overlap (ho : ∀ p ∈ plan, p.orig.start ≤ p.orig.stop)
    (h : plansOverlap plan = false) (hc : ∀ p ∈ plan.head?, cursor ≤ p.orig.start) :
    InOrder cursor plan := by
  induction plan generalizing cursor with
  | nil => trivial
  | cons p rest ih =>
    refine ⟨hc p rfl, ho p (by simp), ?_⟩
    have hr : ∀ q ∈ rest, q.orig.start ≤ q.orig.stop := fun q hq => ho q (by simp [hq])
    cases rest with
    | nil => trivial
    | cons q rest =>
      simp only [plansOverlap, Bool.or_eq_false_iff, decide_eq_false_iff_not] at h
      refine ih hr h.2 fun q' hq' => ?_
      cases hq'
      omega

theorem shiftAt_cons (news : List (List Char)) (p : Planned) (plan : List Planned) (b : ℕ) :
    shiftAt news (p :: plan) b =
      (if p.orig.stop ≤ b then lengthChange news p else 0) + shiftAt news plan b := by
  unfold shiftAt
  by_cases hle : p.orig.stop ≤ b <;> simp [hle]

/-- Nothing before the plans is shifted. -/
theorem shiftAt_before (h : InOrder cursor plan) (hb : b < cursor) :
    shiftAt news plan b = 0 := by
  induction plan generalizing cursor with
  | nil => rfl
  | cons p rest ih =>
    obtain ⟨hst, hs, hr⟩ := h
    rw [shiftAt_cons, if_neg (by omega), ih hr (by omega)]
    rfl

/-- A byte is never shifted to before the place the plans start from. -/
theorem shiftAt_nonneg (news : List (List Char)) (h : InOrder cursor plan) (hb : cursor ≤ b) :
    0 ≤ (b : Int) - cursor + shiftAt news plan b := by
  induction plan generalizing cursor with
  | nil =>
    simp only [shiftAt, filter_nil, map_nil, sum_nil]
    omega
  | cons p rest ih =>
    obtain ⟨hst, hs, hr⟩ := h
    rw [shiftAt_cons]
    by_cases hle : p.orig.stop ≤ b
    · have hl := ih hr hle
      rw [if_pos hle, lengthChange]
      omega
    · rw [if_neg hle, shiftAt_before hr (by omega)]
      omega

/-- The running sums give the shift. -/
theorem runningChanges_eq (news : List (List Char)) (h : InOrder cursor plan)
    (running : Int) (b : ℕ) :
    let idx := partitionPoint (fun p : Planned => decide (p.orig.stop ≤ b)) plan
    (if idx = 0 then running else (runningChanges news running plan).getD (idx - 1) 0) =
      running + shiftAt news plan b := by
  induction plan generalizing cursor running with
  | nil => simp [partitionPoint, shiftAt]
  | cons p rest ih =>
    obtain ⟨hst, hs, hr⟩ := h
    rw [partitionPoint_cons, shiftAt_cons]
    by_cases hle : p.orig.stop ≤ b
    · have hl := ih hr (running + lengthChange news p)
      simp only [hle, decide_true, if_true]
      rw [← Int.add_assoc, ← hl]
      generalize partitionPoint _ rest = idx
      cases idx with
      | zero => simp [runningChanges]
      | succ idx => simp [runningChanges]
    · simp only [hle, decide_false, Bool.false_eq_true, if_false, if_true]
      rw [shiftAt_before hr (by omega)]
      omega

/-- A byte of a hidden part is shifted as its first one. -/
theorem shiftAt_span {view : MaskedView} (hsn : span ∈ view.spans)
    (ha : ∀ p ∈ plan, Avoids view p) (hst : span.orig.start ≤ b) (hs : b < span.orig.stop) :
    shiftAt news plan b = shiftAt news plan span.orig.start := by
  unfold shiftAt
  congr 2
  refine filter_congr fun p hp => ?_
  have ho := (ha p hp).ordered
  have hap := (ha p hp).apart span hsn
  rw [decide_eq_decide]
  omega

/-! ## The new text -/

theorem boundary_of_takeBytes (h : byteLength (takeBytes n cs) = n) : Boundary cs n := by
  have hs (n : ℕ) (cs : List Char) : ∃ after, cs = takeBytes n cs ++ after := by
    induction cs generalizing n with
    | nil => exact ⟨[], rfl⟩
    | cons c rest ih =>
      rw [takeBytes]
      split
      · exact ⟨c :: rest, rfl⟩
      · obtain ⟨after, ha⟩ := ih (n - byteLength [c])
        exact ⟨after, by rw [cons_append, ← ha]⟩
  obtain ⟨after, ha⟩ := hs n cs
  exact ⟨takeBytes n cs, after, ha, h⟩

/-- What is copied from the file stands there. -/
theorem getRange_eq_some (h : getRange cs range = some kept) :
    ∃ pre after, cs = pre ++ (kept ++ after) ∧ byteLength pre = range.start ∧
      byteLength pre + byteLength kept = range.stop := by
  unfold getRange at h
  split at h
  next hr =>
    obtain ⟨pre, middle, after, htx, hst, hs⟩ := (boundary_of_takeBytes hr.2.1).split
      (boundary_of_takeBytes hr.2.2) hr.1
    rw [htx, ← hst, ← hs, slice_append] at h
    cases h
    exact ⟨pre, after, htx, hst, hs⟩
  · cases h

/-- A byte of the copied part, counted from where the copy starts. -/
theorem getRange_byte (h : getRange cs range = some kept) (hst : range.start ≤ b)
    (hs : b < range.stop) (rest : List UInt8) :
    (encode kept ++ rest)[b - range.start]? = (encode cs)[b]? := by
  obtain ⟨pre, after, rfl, hb, hkp⟩ := getRange_eq_some h
  have hl (cs : List Char) : (encode cs).length = byteLength cs := rfl
  rw [getElem?_append_left (by rw [hl]; omega), encode_append,
    getElem?_append_right (by rw [hl]; omega), encode_append,
    getElem?_append_left (by rw [hl, hl]; omega), hl, hb]

/-- **A byte no plan replaces is in the new text, shifted by the edits before it.** -/
theorem applyPlans_byte {updated : List Char} (h : applyPlans orig news cursor plan = some updated)
    (ho : InOrder cursor plan) (hb : cursor ≤ b) (hin : b < byteLength orig)
    (ha : ∀ p ∈ plan, b < p.orig.start ∨ p.orig.stop ≤ b)
    (hb' : (b' : Int) = b - cursor + shiftAt news plan b) :
    (encode updated)[b']? = (encode orig)[b]? := by
  induction plan generalizing cursor updated b' with
  | nil =>
    simp only [shiftAt, filter_nil, map_nil, sum_nil] at hb'
    obtain rfl : b' = b - cursor := by omega
    have hby := getRange_byte h hb hin []
    rwa [append_nil] at hby
  | cons p rest ih =>
    obtain ⟨hst, hs, hr⟩ := ho
    obtain ⟨kept, hkp, h⟩ := Option.bind_eq_some_iff.mp h
    obtain ⟨later, hl, rfl⟩ := Option.map_eq_some_iff.mp h
    rw [append_assoc, encode_append, encode_append]
    rw [shiftAt_cons] at hb'
    rcases ha p (by simp) with hf | hh
    · rw [if_neg (by omega), shiftAt_before hr (by omega)] at hb'
      obtain rfl : b' = b - cursor := by omega
      exact getRange_byte hkp hb hf _
    · have hnn := shiftAt_nonneg news hr hh
      obtain ⟨b'', hb''⟩ := Int.eq_ofNat_of_zero_le hnn
      obtain ⟨pre, after, htx, hfr, hn⟩ := getRange_eq_some hkp
      dsimp only at hfr hn
      have hby := ih hl hr hh (fun q hq => ha q (by simp [hq])) hb''.symm
      rw [if_pos hh, lengthChange] at hb'
      have hsz (cs : List Char) : (encode cs).length = byteLength cs := rfl
      rw [getElem?_append_right (by rw [hsz]; omega),
        getElem?_append_right (by rw [hsz, hsz]; omega), hsz, hsz, ← hby]
      congr 1
      omega

/-! ## The last check -/

/-- A span over this byte of the text. -/
def Covers (view : MaskedView) (b : ℕ) : Prop :=
  ∃ span ∈ view.spans, span.orig.start ≤ b ∧ b < span.orig.stop

/-- Spans that cover a range cover each byte of it. -/
theorem coveredTo_covers {stop : ℕ} {spans : List Span} (h : coveredTo stop cursor spans = true)
    (hb : cursor ≤ b) (hs : b < stop) :
    ∃ span ∈ spans, span.orig.start ≤ b ∧ b < span.orig.stop := by
  induction spans generalizing cursor with
  | nil =>
    have hle : stop ≤ cursor := by simpa [coveredTo] using h
    omega
  | cons span spans ih =>
    rw [coveredTo, if_neg (by omega)] at h
    split at h
    next hst =>
      by_cases hsn : b < span.orig.stop
      · exact ⟨span, by simp, by omega, hsn⟩
      · obtain ⟨span', hsn', hin⟩ := ih h (by omega)
        exact ⟨span', by simp [hsn'], hin⟩
    · cases h

/-- **The last check lets no hidden byte through that the new view would show.** -/
theorem maskedBytesStayMasked_covers {pre post : MaskedView} (ho : InOrder 0 plan)
    (ha : ∀ p ∈ plan, Avoids pre p)
    (h : maskedBytesStayMasked pre plan news post = true) (hsn : span ∈ pre.spans)
    (hst : span.orig.start ≤ b) (hs : b < span.orig.stop)
    (hb' : (b' : Int) = b + shiftAt news plan b) : Covers post b' := by
  have hc := all_eq_true.mp h span hsn
  have hh := runningChanges_eq news ho 0 span.orig.start
  rw [shiftAt_span hsn ha hst hs] at hb'
  obtain ⟨span', hm, hin⟩ := coveredTo_covers (b := b') hc (by omega) (by omega)
  exact ⟨span', mem_of_mem_drop hm, hin⟩

end Shifts

/-! ## Requests -/

section
variable {cls : FileClass} {etag : String} {args : EditArgs} {plan : EditPlan}

theorem mapM_eq_ok {ε α β : Type} {f : α → Except ε β} {list : List α} {results : List β}
    (h : list.mapM f = .ok results) : ∀ x ∈ list, ∃ y, f x = .ok y := by
  induction list generalizing results with
  | nil => simp
  | cons x list ih =>
    rw [mapM_cons] at h
    obtain ⟨y, hy, h⟩ := bind_eq_ok.mp h
    obtain ⟨ys, hys, -⟩ := bind_eq_ok.mp h
    intro x' hx'
    rcases mem_cons.mp hx' with rfl | hx'
    · exact ⟨y, hy⟩
    · exact ih hys x' hx'

theorem oldText_ne_nil (h : validateArgs args = .ok ()) :
    ∀ op ∈ args.edits, op.oldText ≠ some [] := by
  unfold validateArgs at h
  split at h
  · cases h
  split at h
  · cases h
  obtain ⟨results, hr, -⟩ := bind_eq_ok.mp h
  intro op hop hold
  obtain ⟨needsEtag, hvd⟩ := mapM_eq_ok hr op hop
  obtain ⟨kind, hkd, -⟩ := bind_eq_ok.mp hvd
  rw [hold] at hkd
  split at hkd
  next hso _ _ =>
    cases hso
    cases hkd
  next hno _ _ => cases hno
  · cases hkd

/-- A planned request: the plans are in order and each of them is sound. -/
structure Ready (fileClass : FileClass) (bytes : List UInt8) (args : EditArgs) (plan : EditPlan) :
    Prop where
  bytes : bytes = Utf8.encode plan.original
  view : plan.view = mask fileClass plan.original
  order : InOrder 0 plan.planned
  sound : ∀ p ∈ plan.planned, Sound plan.original plan.view plan.crlf args.edits p

/-- A planned request is ready to be written. -/
theorem planRequest_ready (hvd : validateArgs args = .ok ())
    (h : planRequest cls bytes etag args = .ok plan) : Ready cls bytes args plan := by
  unfold planRequest at h
  split at h
  · cases h
  split at h
  · cases h
  split at h
  · cases h
  · cases h
  next orig hn hut =>
  obtain ⟨plans, hpl, h⟩ := bind_eq_ok.mp h
  dsimp only at h
  split at h
  · cases h
  next ho =>
  cases h
  have hso := planEdits_sound (maskWithLookback_laid cls orig lookbackBytes) rfl
    (oldText_ne_nil hvd) [] args.edits rfl hpl
  have hs : ∀ p ∈ plans.1.insertionSort PlannedBefore,
      Sound orig (mask cls orig) (detectEol bytes == .crlf) args.edits p :=
    fun p hp => hso p ((mem_insertionSort _).mp hp)
  refine ⟨fromUtf8_eq_some.mp hut, rfl, ?_, hs⟩
  exact inOrder_of_not_overlap (fun p hp => (hs p hp).avoids.ordered)
    (by simpa using ho) fun p _ => Nat.zero_le _

/-- The bytes of a range that holds a text. -/
theorem bytes_of_holds {orig : List Char} {p : Planned} (h : Holds orig p old) :
    ((encode orig).drop p.orig.start).take (p.orig.stop - p.orig.start) =
      encode old := by
  obtain ⟨pre, after, rfl, hr⟩ := h
  rw [hr]
  rw [Nat.add_sub_cancel_left, encode_append, encode_append]
  have hl (cs : List Char) : byteLength cs = (encode cs).length := rfl
  rw [hl, hl, drop_left, take_left]

/-- The position of a hidden byte in the new text. -/
theorem Ready.exists_shifted (h : Ready cls bytes args plan) (b : ℕ) :
    ∃ b' : ℕ, (b' : Int) = b + shiftAt plan.newTexts plan.planned b := by
  have hnn := shiftAt_nonneg plan.newTexts h.order (Nat.zero_le b)
  exact ⟨(b + shiftAt plan.newTexts plan.planned b).toNat, by omega⟩

/-- **Edits neither change nor show what is masked.**  The range of every exact match holds
the text asked for; the last check refuses every view that does not cover some hidden byte;
and of an accepted request, every hidden byte is in the new text, shifted by the edits before
it, and masked there. -/
theorem edit_keeps_masked (fileClass : FileClass) (bytes : List UInt8) (etag : String)
    (args : EditArgs) :
    (∀ plan, validateArgs args = .ok () → planRequest fileClass bytes etag args = .ok plan →
      (∀ p ∈ plan.planned, ∃ op, args.edits[p.edit]? = some op ∧
        ∀ old, op.oldText = some old →
          (bytes.drop p.orig.start).take (p.orig.stop - p.orig.start) =
            Utf8.encode (translateEol old plan.crlf)) ∧
      ∀ after, (∃ span ∈ (mask fileClass plan.original).spans, ∃ b b' : ℕ,
          span.orig.start ≤ b ∧ b < span.orig.stop ∧
            (b' : Int) = b + shiftAt plan.newTexts plan.planned b ∧ ¬ Covers after b') →
        maskedBytesStayMasked plan.view plan.planned plan.newTexts after = false) ∧
    ∀ outcome, edit fileClass bytes etag args = .ok outcome →
      ∃ plan, planRequest fileClass bytes etag args = .ok plan ∧
        ∀ span ∈ (mask fileClass plan.original).spans, ∀ b, span.orig.start ≤ b →
          b < span.orig.stop → ∃ b' : ℕ,
            (b' : Int) = b + shiftAt plan.newTexts plan.planned b ∧
            (∃ byte, bytes[b]? = some byte ∧ (Utf8.encode outcome.updated)[b']? = some byte) ∧
            Covers (mask fileClass outcome.updated) b' := by
  constructor
  · intro plan hv hl
    have hr := planRequest_ready hv hl
    constructor
    · intro p hp
      obtain ⟨op, hop, he⟩ := (hr.sound p hp).exact
      refine ⟨op, hop, fun old hold => ?_⟩
      rw [hr.bytes]
      exact bytes_of_holds (he old hold)
    · rintro after ⟨span, hs, b, b', hst, hso, hb', hn⟩
      by_contra ht
      rw [Bool.not_eq_false] at ht
      rw [← hr.view] at hs
      exact hn (maskedBytesStayMasked_covers hr.order
        (fun p hp => (hr.sound p hp).avoids) ht hs hst hso hb')
  · intro outcome h
    obtain ⟨_, hv, h⟩ := bind_eq_ok.mp h
    obtain ⟨plan, hl, h⟩ := bind_eq_ok.mp h
    have hr := planRequest_ready hv hl
    have ha : ∀ p ∈ plan.planned, Avoids plan.view p := fun p hp => (hr.sound p hp).avoids
    refine ⟨plan, hl, fun span hs b hst hso => ?_⟩
    obtain ⟨b', hb'⟩ := hr.exists_shifted b
    have hw := (maskWithLookback_laid fileClass plan.original lookbackBytes).within span hs
    rw [← hr.view] at hs
    unfold finishEdit at h
    dsimp only at h
    split at h
    · cases h
    split at h
    · cases h
    next updated hu =>
    split at h
    · cases h
    split at h
    · cases h
    split at h
    · cases h
    next ht =>
    cases h
    refine ⟨b', hb', ?_, maskedBytesStayMasked_covers hr.order ha
      (by simpa using ht) hs hst hso hb'⟩
    have hin : b < byteLength plan.original := by omega
    have hb := applyPlans_byte hu hr.order (Nat.zero_le b) hin
      (fun p hp => ?_) (by rw [hb']; omega)
    · rw [hb, hr.bytes]
      exact ⟨_, List.getElem?_eq_getElem hin, List.getElem?_eq_getElem hin⟩
    · have hap := (ha p hp).apart span hs
      omega

/-- An edit before a hidden value moves it by one byte, and a view without spans would have been
refused. -/
theorem edit_keeps_masked_moved :
    let bytes := encode "A=1\nX_TOKEN=s\n".toList
    let args : EditArgs :=
      ⟨none, [⟨some "A=1".toList, "A=22".toList, none, none, none⟩], none, none⟩
    let updated := "A=22\nX_TOKEN=s\n".toList
    edit .plain bytes "etag" args = .ok ⟨updated, true⟩ ∧
      (bytes.drop 0).take 3 = encode "A=1".toList ∧
      (∃ plan, planRequest .plain bytes "etag" args = .ok plan ∧
        maskedBytesStayMasked plan.view plan.planned plan.newTexts ⟨[], [], [], false⟩ = false) ∧
      ∃ b' : ℕ, (b' : Int) = 4 + 1 ∧ Covers (mask .plain updated) b' := by
  intro bytes args updated
  have he : edit .plain bytes "etag" args = .ok ⟨updated, true⟩ := by decide +kernel
  have hd : (planRequest .plain bytes "etag" args).map
      (fun plan => (plan.original, plan.planned, plan.newTexts, plan.crlf)) =
      .ok ("A=1\nX_TOKEN=s\n".toList, [⟨⟨0, 3⟩, 0⟩], ["A=22".toList], false) := by decide +kernel
  obtain ⟨hl, ha⟩ := edit_keeps_masked .plain bytes "etag" args
  obtain ⟨plan, hp, hm⟩ := ha _ he
  obtain ⟨hea, hf⟩ := hl plan (by decide +kernel) hp
  rw [hp] at hd
  simp only [Except.map, Except.ok.injEq, Prod.mk.injEq] at hd
  obtain ⟨ho, hr, ht, hc⟩ := hd
  have hs : ⟨⟨4, 23⟩, ⟨4, 13⟩⟩ ∈ (mask .plain plan.original).spans := by
    rw [ho]
    decide +kernel
  have hh : shiftAt plan.newTexts plan.planned 4 = 1 := by
    rw [hr, ht]
    decide +kernel
  refine ⟨he, ?_, ⟨plan, hp, ?_⟩, ?_⟩
  · obtain ⟨op, hop, hold⟩ := hea ⟨⟨0, 3⟩, 0⟩ (by rw [hr]; exact mem_singleton_self _)
    cases hop
    rw [hc] at hold
    exact hold _ rfl
  · refine hf _ ⟨_, hs, 4, 5, le_rfl, by decide, by rw [hh]; rfl, ?_⟩
    rintro ⟨span, hme, -⟩
    cases hme
  · obtain ⟨b', hb', -, hv⟩ := hm _ hs 4 le_rfl (by decide)
    rw [hh] at hb'
    exact ⟨b', hb', hv⟩

end

end ModelProxy.FileEdit
