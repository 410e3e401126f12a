import ModelProxy.MaskPlacement

/-! # What a line does to the masker

The offsets of the open private keys are indexed by label and, for the latest one, by
offset; the two agree.  What the next line has to know of this one depends on this line
alone.
-/
namespace ModelProxy.Redact
open OrderedMap List LineMasker
open Utf8 (byteLength)

variable {opener : ℕ} {lab : List Char}

namespace LineMasker
variable {m : LineMasker} {l : List Char} {at_ : ℕ}

/-! ## Open private keys -/

/-- The open BEGINs of a label, innermost last. -/
def openers (m : LineMasker) (label : List Char) : List ℕ := (m.pemOpen.get label).getD []

/-- How many BEGINs are open at an offset. -/
def openAt (m : LineMasker) (offset : ℕ) : ℕ := m.pemOpen.weight (·.count offset)

/-- The index by offset counts the open BEGINs, and lists no offset without one. -/
def Indexed (m : LineMasker) : Prop :=
  ∀ offset, m.pemLatest.get offset = if m.openAt offset = 0 then none else some (m.openAt offset)

/-- How a marker changes the open blocks of a label. -/
theorem openers_pemMarker (m : LineMasker) (at_ : ℕ) (marker : Bool × List Char)
    (label : List Char) :
    (pemMarker at_ m marker).openers label =
      if marker.2 = label then
        if marker.1 then m.openers label ++ [at_] else (m.openers label).dropLast
      else m.openers label := by
  obtain ⟨begin, lab'⟩ := marker
  unfold pemMarker openers
  cases begin with
  | true =>
    simp only [if_true, get_set]
    by_cases hl : lab' = label
    · simp [hl]
    · simp [hl]
  | false =>
    cases hg : m.pemOpen.get lab' with
    | none =>
      by_cases hl : lab' = label
      · subst hl
        simp [hg]
      · simp [hl]
    | some stack =>
      by_cases hl : lab' = label
      · subst hl
        by_cases hla : stack.dropLast = []
        · simp [hla, hg, get_delete]
        · simp [hla, hg]
      · by_cases hla : stack.dropLast = []
        · simp [hla, hl, get_delete]
        · simp [hla, hl, get_set]

theorem mem_openers_iff {off : ℕ} : 0 < m.openAt off ↔ ∃ label, off ∈ m.openers label := by
  unfold openAt openers
  rw [weight_pos]
  constructor
  · rintro ⟨label, stack, hg, hp⟩
    exact ⟨label, by rw [hg]; exact count_pos_iff.mp hp⟩
  rintro ⟨label, hm⟩
  cases hg : m.pemOpen.get label with
  | none =>
    rw [hg] at hm
    cases hm
  | some stack =>
    rw [hg] at hm
    exact ⟨label, stack, hg, count_pos_iff.mpr hm⟩

/-- A BEGIN adds one at its offset. -/
theorem openAt_begin (m : LineMasker) (at_ : ℕ) (lab : List Char) (off : ℕ) :
    (pemMarker at_ m (true, lab)).openAt off =
      m.openAt off + if at_ = off then 1 else 0 := by
  have hs := weight_set (·.count off) m.pemOpen lab ((m.pemOpen.get lab).getD [] ++ [at_])
  have hc : ((m.pemOpen.get lab).getD [] ++ [at_]).count off =
      ((m.pemOpen.get lab).map (·.count off)).getD 0 + if at_ = off then 1 else 0 := by
    rw [count_append, count_singleton]
    cases m.pemOpen.get lab <;> simp
  show (m.pemOpen.set lab ((m.pemOpen.get lab).getD [] ++ [at_])).weight (·.count off) =
    m.pemOpen.weight (·.count off) + if at_ = off then 1 else 0
  omega

/-- An END takes one from the offset of the innermost BEGIN of its label. -/
theorem openAt_end {stack : List ℕ} (at_ : ℕ) (hg : m.pemOpen.get lab = some (stack ++ [opener]))
    (offset : ℕ) :
    (pemMarker at_ m (false, lab)).openAt offset + (if opener = offset then 1 else 0) =
      m.openAt offset := by
  have hc : (stack ++ [opener]).count offset =
      stack.count offset + if opener = offset then 1 else 0 := by
    rw [count_append, count_singleton]
    simp
  have hop : (pemMarker at_ m (false, lab)).pemOpen =
      if stack = [] then m.pemOpen.delete lab else m.pemOpen.set lab stack := by
    unfold pemMarker
    simp [hg]
  unfold openAt
  rw [hop]
  split
  next hs =>
    have hd := weight_delete (·.count offset) m.pemOpen lab
    rw [hg, Option.map_some, Option.getD_some, hc, hs] at hd
    simpa using hd
  · have ht := weight_set (·.count offset) m.pemOpen lab stack
    rw [hg, Option.map_some, Option.getD_some, hc] at ht
    omega

/-- **The index by offset keeps up with every marker.** -/
theorem Indexed.pemMarker (h : m.Indexed) (at_ : ℕ) (marker : Bool × List Char) :
    (pemMarker at_ m marker).Indexed := by
  obtain ⟨begin, lab⟩ := marker
  intro offset
  have hn := h offset
  cases begin with
  | true =>
    rw [openAt_begin]
    show (m.pemLatest.set at_ _).get offset = _
    rw [get_set]
    by_cases hat : at_ = offset
    · subst hat
      rw [if_pos rfl, if_pos rfl, if_neg (Nat.succ_ne_zero _), hn]
      split
      next hz => rw [hz]; rfl
      · rfl
    · rw [if_neg hat, if_neg hat, hn, add_zero]
  | false =>
    cases hg : m.pemOpen.get lab with
    | none =>
      have hsm : LineMasker.pemMarker at_ m (false, lab) = m := by
        unfold LineMasker.pemMarker
        simp [hg]
      rw [hsm, hn]
    | some stack =>
      rcases eq_nil_or_concat' stack with rfl | ⟨init, opener, rfl⟩
      · -- An empty list of openers is never stored, but dropping it changes nothing.
        have hd := weight_delete (·.count offset) m.pemOpen lab
        have hsm : (LineMasker.pemMarker at_ m (false, lab)).openAt offset =
            m.openAt offset := by
          unfold openAt LineMasker.pemMarker
          simpa [hg] using hd
        rw [hsm, ← hn]
        unfold LineMasker.pemMarker
        simp [hg]
      · have hc := openAt_end at_ hg offset
        have ho := h opener
        have hp : 0 < m.openAt opener := by
          rw [mem_openers_iff]
          exact ⟨lab, by rw [openers, hg]; simp⟩
        rw [if_neg (ne_of_gt hp)] at ho
        have hl : (LineMasker.pemMarker at_ m (false, lab)).pemLatest =
            if m.openAt opener - 1 = 0 then m.pemLatest.delete opener
            else m.pemLatest.set opener (m.openAt opener - 1) := by
          unfold LineMasker.pemMarker
          simp [hg, ho]
        rw [hl]
        by_cases hof : opener = offset
        · subst hof
          rw [if_pos rfl] at hc
          have ha : (LineMasker.pemMarker at_ m (false, lab)).openAt opener =
              m.openAt opener - 1 := by omega
          rw [ha]
          split
          · rw [get_delete, if_pos rfl]
          · rw [get_set_self]
        · rw [if_neg hof, add_zero] at hc
          rw [hc, ← hn]
          split
          · rw [get_delete, if_neg hof]
          · rw [get_set_ne _ _ hof]

theorem Indexed.foldl (h : m.Indexed) (at_ : ℕ) (marks : List (Bool × List Char)) :
    (marks.foldl (LineMasker.pemMarker at_) m).Indexed := by
  induction marks generalizing m with
  | nil => exact h
  | cons marker marks ih => exact ih (h.pemMarker at_ marker)

/-- The index has a latest offset exactly if a private key is open, and it is open there. -/
theorem Indexed.latest (h : m.Indexed) (hl : m.pemLatest.keys.max? = some opener) :
    ∃ label, opener ∈ m.openers label := by
  rw [← mem_openers_iff]
  have hm : opener ∈ m.pemLatest.keys := max?_mem hl
  obtain ⟨count, hg⟩ := mem_keys.mp hm
  rw [h opener] at hg
  split at hg
  · cases hg
  next hne => exact pos_of_ne_zero hne

theorem Indexed.latest_isSome (h : m.Indexed) (hm : opener ∈ m.openers lab) :
    m.pemLatest.keys.max?.isSome := by
  have hp : 0 < m.openAt opener := mem_openers_iff.mpr ⟨lab, hm⟩
  have hg := h opener
  rw [if_neg (ne_of_gt hp)] at hg
  have hk : opener ∈ m.pemLatest.keys := mem_keys.mpr ⟨_, hg⟩
  rw [Option.isSome_iff_ne_none, Ne, max?_eq_none_iff]
  exact ne_nil_of_mem hk

theorem indexed_withLookback (cls : FileClass) (back : ℕ) :
    (withLookback cls back).Indexed := fun _ => rfl

/-! ## The state after a line -/

theorem foldl_pemMarker_frame (at_ : ℕ) (marks : List (Bool × List Char)) (m : LineMasker) :
    ∃ pemOpen pemLatest, marks.foldl (pemMarker at_) m =
      { m with pemOpen := pemOpen, pemLatest := pemLatest } := by
  induction marks generalizing m with
  | nil => exact ⟨_, _, rfl⟩
  | cons marker marks ih =>
    obtain ⟨pemOpen, pemLatest, hr⟩ := ih (pemMarker at_ m marker)
    refine ⟨pemOpen, pemLatest, ?_⟩
    rw [foldl_cons, hr]
    unfold pemMarker
    split
    · rfl
    · split <;> rfl

theorem foldl_openConstruct_frame (l : List Char) (at_ : ℕ) (constructs : List Construct)
    (m : LineMasker) :
    ∃ untilBlank blocks, constructs.foldl (openConstruct l at_) m =
      { m with untilBlank := untilBlank, blocks := blocks } := by
  induction constructs generalizing m with
  | nil => exact ⟨_, _, rfl⟩
  | cons con constructs ih =>
    obtain ⟨untilBlank, blocks, hr⟩ := ih (openConstruct l at_ m con)
    refine ⟨untilBlank, blocks, ?_⟩
    rw [foldl_cons, hr]
    cases con <;> rfl

/-- What the next line has to know depends on the line and the file class alone. -/
theorem scanBody_pending (cls : FileClass) (pendingFlagValue pendingTokenLine : Bool)
    (l : List Char) :
    (scanBody cls pendingFlagValue pendingTokenLine l).pendingFlagValue =
        (l.contains '-' && flagAtEnd.isMatch l) ∧
      (scanBody cls pendingFlagValue pendingTokenLine l).pendingTokenLine =
        ((classRule cls l).1 && (firstSecretName l).isSome) := by
  unfold scanBody
  obtain ⟨generic, masks, constructs⟩ := classRule cls l
  dsimp only
  cases generic with
  | false => simp
  | true =>
    rw [if_pos rfl, Bool.true_and]
    split
    next hnm => exact ⟨rfl, hnm.symm⟩
    next hnm =>
      rw [Bool.not_eq_true] at hnm
      rw [hnm]
      split <;> exact ⟨rfl, rfl⟩

/-- The masker a line is scanned with: the runs it closes are closed. -/
def onLine (m : LineMasker) (line : List Char) (at_ : ℕ) : LineMasker :=
  { m with nextAt := at_ + byteLength line + 1 }.closeRuns line

/-- What the rules make of a line in this state. -/
def bodyOf (m : LineMasker) (line : List Char) : LineBody :=
  scanBody m.fileClass m.pendingFlagValue m.pendingTokenLine line

theorem onLine_frame (m : LineMasker) (l : List Char) (at_ : ℕ) :
    ∃ untilBlank blocks, m.onLine l at_ =
      { m with
        nextAt := at_ + byteLength l + 1, untilBlank := untilBlank, blocks := blocks } := by
  unfold onLine closeRuns
  split <;> exact ⟨_, _, rfl⟩

/-- The masker once the line's markers are read and its flags are set. -/
def taken (m : LineMasker) (line : List Char) (at_ : ℕ) : LineMasker :=
  { (pemEvents line).foldl (LineMasker.pemMarker at_) (m.onLine line at_) with
    pendingFlagValue := (m.bodyOf line).pendingFlagValue
    pendingTokenLine := (m.bodyOf line).pendingTokenLine
    tokenAt := if (m.bodyOf line).pendingTokenLine then some at_ else none
    longRun := m.longRun || ((m.onLine line at_).maskedBy line at_).any fun opener =>
      decide (m.lookback < at_ - opener) }

/-- **What a line does**: it closes runs, its markers open and close private keys, and it
opens what its rules say. -/
theorem scanAt_eq (m : LineMasker) (l : List Char) (at_ : ℕ) :
    m.scanAt l at_ =
      ((m.bodyOf l).constructs.foldl (openConstruct l at_) (m.taken l at_),
        shownMasks l ((m.onLine l at_).pemTouched l)
          ((m.onLine l at_).maskedBy l at_).isSome (m.bodyOf l).masks) := by
  unfold scanAt taken bodyOf
  dsimp only
  rw [← onLine]
  obtain ⟨pemOpen, pemLatest, hm⟩ :=
    foldl_pemMarker_frame at_ (pemEvents l) (m.onLine l at_)
  obtain ⟨untilBlank, blocks, ho⟩ := m.onLine_frame l at_
  rw [hm]
  rw [ho]

theorem Indexed.scanAt (h : m.Indexed) (l : List Char) (at_ : ℕ) :
    (m.scanAt l at_).1.Indexed := by
  rw [scanAt_eq]
  obtain ⟨untilBlank, blocks, ho⟩ := m.onLine_frame l at_
  have hcl : (m.onLine l at_).Indexed := by
    rw [ho]
    exact h
  have hm := hcl.foldl at_ (pemEvents l)
  obtain ⟨untilBlank', blocks', hop⟩ := foldl_openConstruct_frame l at_
    (m.bodyOf l).constructs (m.taken l at_)
  rw [hop]
  exact hm

end LineMasker

end ModelProxy.Redact
