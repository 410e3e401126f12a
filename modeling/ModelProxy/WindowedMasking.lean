import ModelProxy.FileWindow
import ModelProxy.MaskerRuns

/-! # A window masks what the whole file masks

Two maskers run over the same lines, one from the first line and one from the start of the
context.  What the first has open since the line after that start, the second has open too:
the same indentation blocks, the run up to a blank line, and of every label at least as many
private keys as were opened since.  A line of the window is masked by an opener no further
back than the lookback, or else by its own rules, which both apply alike.
-/
namespace ModelProxy.Redact
open LineMasker List Utf8
open Utf8 (byteLength)

/-- A byte of a line is masked. -/
def Masked (masks : List LineMask) (b : ℕ) : Prop :=
  ∃ mask ∈ masks, mask.range.start ≤ b ∧ b < mask.range.stop

variable {b opener : ℕ}

section Cover
variable {line : List Char} {masks : List LineMask}

theorem Placed.masked_lt {cur : ℕ} (h : Placed line cur masks) (hb : Masked masks b) :
    b < byteLength line := by
  obtain ⟨mask, hma, -, hlt⟩ := hb
  induction masks generalizing cur with
  | nil => cases hma
  | cons first masks ih =>
    obtain ⟨-, hok, hr⟩ := h
    rcases mem_cons.mp hma with rfl | hma
    · exact Nat.lt_of_lt_of_le hlt hok.stop.le
    · exact ih hr hma

/-- A line that something masks is masked whole. -/
theorem shownMasks_whole {pemTouched masked : Bool} (h : pemTouched = true ∨ masked = true)
    (hb : b < byteLength line) : Masked (shownMasks line pemTouched masked masks) b := by
  have hw : Masked [wholeMask line tokenBare] b := ⟨_, mem_singleton_self _, Nat.zero_le _, hb⟩
  unfold shownMasks
  split
  · exact hw
  next hp =>
  have hm : masked = true := h.resolve_left hp
  rw [if_pos hm]
  split
  · split
    next mask hr =>
      refine ⟨mask, mem_singleton_self _, ?_, ?_⟩ <;> rw [hr]
      · exact Nat.zero_le _
      · exact hb
    · exact hw
  · exact hw

end Cover

namespace LineMasker
variable {f g : LineMasker} {line : List Char} {at_ at' low : ℕ} {ps : List (ℕ × ℕ)}

/-! ## What both have open -/

/-- What `f` has open since an offset, `g` has open too; `pairs` are the offsets at which
each has seen the lines since. -/
structure Shares (since : ℕ) (pairs : List (ℕ × ℕ)) (f g : LineMasker) : Prop where
  fileClass : f.fileClass = g.fileClass
  blocks : ∀ block ∈ f.blocks, since ≤ block.opener → ∃ block' ∈ g.blocks,
    block'.indent = block.indent ∧ block'.ws = block.ws ∧ (block.opener, block'.opener) ∈ pairs
  untilBlank : ∀ opener, f.untilBlank = some opener → since ≤ opener → g.untilBlank.isSome
  pem : ∀ label, ∃ old new, f.openers label = old ++ new ∧
    new.length = (g.openers label).length ∧ ∀ opener ∈ old, opener < since

/-- Where `f` remembers a line with a name, `g` remembers the same line. -/
def TokenFollows (pairs : List (ℕ × ℕ)) (f g : LineMasker) : Prop :=
  ∀ pair ∈ pairs, f.tokenAt = some pair.1 → g.tokenAt = some pair.2

theorem Shares.closeRuns (h : Shares low ps f g) (ht : TokenFollows ps f g)
    (line : List Char) : Shares low ps (f.closeRuns line) (g.closeRuns line) := by
  unfold LineMasker.closeRuns
  split
  · exact ⟨h.fileClass, h.blocks, fun _ hno => (by cases hno), h.pem⟩
  refine ⟨h.fileClass, fun block hb hn => ?_, h.untilBlank, h.pem⟩
  obtain ⟨hm, hs⟩ := mem_filter.mp hb
  obtain ⟨block', hm', hie, hws, hpr⟩ := h.blocks block hm hn
  refine ⟨block', mem_filter.mpr ⟨hm', ?_⟩, hie, hws, hpr⟩
  unfold staysOpen at hs ⊢
  rw [hie, hws]
  simp only [Bool.or_eq_true, decide_eq_true_eq] at hs ⊢
  rcases hs with hd | hA
  · exact .inl hd
  · exact .inr (ht _ hpr hA.symm).symm

/-- A marker moves both scanners alike. -/
theorem Shares.pemMarker (h : Shares low ps f g) (at_ at' : ℕ) (marker : Bool × List Char) :
    Shares low ps (pemMarker at_ f marker) (pemMarker at' g marker) := by
  have hf (m : LineMasker) (at_ : ℕ) : (LineMasker.pemMarker at_ m marker).fileClass = m.fileClass ∧
      (LineMasker.pemMarker at_ m marker).blocks = m.blocks ∧
      (LineMasker.pemMarker at_ m marker).untilBlank = m.untilBlank := by
    unfold LineMasker.pemMarker
    split
    · exact ⟨rfl, rfl, rfl⟩
    · split <;> exact ⟨rfl, rfl, rfl⟩
  obtain ⟨hc, hbl, hun⟩ := hf f at_
  obtain ⟨hc', hb', hun'⟩ := hf g at'
  refine ⟨by rw [hc, hc', h.fileClass], by rw [hbl, hb']; exact h.blocks,
    by rw [hun, hun']; exact h.untilBlank, fun lab => ?_⟩
  obtain ⟨old, new, hs, hl, hold⟩ := h.pem lab
  rw [openers_pemMarker, openers_pemMarker]
  by_cases hb : marker.2 = lab
  · rw [if_pos hb, if_pos hb]
    cases marker.1 with
    | true => exact ⟨old, new ++ [at_], by simp [hs], by simp [hl], hold⟩
    | false =>
      rw [if_neg Bool.false_ne_true, if_neg Bool.false_ne_true]
      by_cases hn : new = []
      · -- Nothing opened since: the END closes an older key, or none.
        subst hn
        have he : g.openers lab = [] := length_eq_zero_iff.mp hl.symm
        refine ⟨old.dropLast, [], by simp [hs], by simp [he], fun opener hm => ?_⟩
        exact hold opener (mem_of_mem_dropLast hm)
      · refine ⟨old, new.dropLast, ?_, by simp [hl], hold⟩
        rw [hs, dropLast_append_of_ne_nil hn]
  · rw [if_neg hb, if_neg hb]
    exact ⟨old, new, hs, hl, hold⟩

theorem Shares.foldl_pemMarker (h : Shares low ps f g) (at_ at' : ℕ)
    (marks : List (Bool × List Char)) :
    Shares low ps (marks.foldl (LineMasker.pemMarker at_) f)
      (marks.foldl (LineMasker.pemMarker at') g) := by
  induction marks generalizing f g with
  | nil => exact h
  | cons marker marks ih => exact ih (h.pemMarker at_ at' marker)

theorem Shares.openConstruct (h : Shares low ps f g) (hpr : (at_, at') ∈ ps) (con : Construct) :
    Shares low ps (openConstruct line at_ f con) (openConstruct line at' g con) := by
  cases con with
  | none => exact h
  | untilBlank => exact ⟨h.fileClass, h.blocks, fun _ _ _ => rfl, h.pem⟩
  | block lineIndent =>
    refine ⟨h.fileClass, fun block hb hs => ?_, h.untilBlank, h.pem⟩
    rcases mem_append.mp hb with hb | hb
    · obtain ⟨hm, ho⟩ := mem_filter.mp hb
      obtain ⟨block', hm', hie, hws, hpr'⟩ := h.blocks block hm hs
      refine ⟨block', mem_append_left _ (mem_filter.mpr ⟨hm', ?_⟩), hie, hws, hpr'⟩
      rw [hie, hws]
      exact ho
    · obtain rfl := mem_singleton.mp hb
      exact ⟨⟨lineIndent, indentKinds line, at'⟩, mem_append_right _ (mem_singleton_self _),
        rfl, rfl, hpr⟩

theorem Shares.foldl_openConstruct (h : Shares low ps f g) (hpr : (at_, at') ∈ ps)
    (constructs : List Construct) :
    Shares low ps (constructs.foldl (LineMasker.openConstruct line at_) f)
      (constructs.foldl (LineMasker.openConstruct line at') g) := by
  induction constructs generalizing f g with
  | nil => exact h
  | cons con constructs ih => exact ih (h.openConstruct hpr con)

theorem Shares.mono {pairs' : List (ℕ × ℕ)} (h : Shares low ps f g)
    (hs : ∀ pair ∈ ps, pair ∈ pairs') : Shares low pairs' f g := by
  refine ⟨h.fileClass, fun block hb hn => ?_, h.untilBlank, h.pem⟩
  obtain ⟨block', hm, hie, hws, hpr⟩ := h.blocks block hb hn
  exact ⟨block', hm, hie, hws, hs _ hpr⟩

/-! ## What masks a line -/

theorem later_eq_some {a b : Option ℕ} {n : ℕ} (h : later a b = some n) :
    a = some n ∨ b = some n := by
  cases a with
  | none => exact .inr h
  | some a =>
    cases b with
    | none => exact .inl h
    | some b =>
      have hm : max a b = n := Option.some.inj h
      rcases Nat.le_total a b with hle | hle
      · rw [Nat.max_eq_right hle] at hm
        exact .inr (by rw [hm])
      · rw [Nat.max_eq_left hle] at hm
        exact .inl (by rw [hm])

theorem later_isSome {a b : Option ℕ} : (later a b).isSome ↔ a.isSome ∨ b.isSome := by
  cases a <;> cases b <;> simp [later]

/-- A run opened within reach is open in the window too. -/
theorem Shares.runOpener (h : Shares low ps f g) (hr : f.runOpener line = some opener)
    (hs : low ≤ opener) : (g.runOpener line).isSome := by
  have hb (hm : opener ∈ f.blocks.map OpenBlock.opener) :
      ∃ opener', opener' ∈ g.blocks.map OpenBlock.opener := by
    obtain ⟨block, hb, rfl⟩ := mem_map.mp hm
    obtain ⟨block', hb', -⟩ := h.blocks block hb hs
    exact ⟨_, mem_map_of_mem hb'⟩
  unfold LineMasker.runOpener at hr ⊢
  split
  next hl =>
    rw [if_pos hl] at hr
    split
    next he =>
      rw [if_pos he] at hr
      cases hr
    next hp =>
      rw [if_neg hp] at hr
      obtain ⟨opener', hm⟩ := hb (max?_mem hr)
      exact isSome_max?_of_mem hm
  next hl =>
  rw [if_neg hl] at hr
  rcases mem_append.mp (max?_mem hr) with hm | hm
  · obtain ⟨opener', hm'⟩ := hb hm
    exact isSome_max?_of_mem (mem_append_left _ hm')
  · have hun := h.untilBlank opener (Option.mem_toList.mp hm) hs
    obtain ⟨opener', ho'⟩ := Option.isSome_iff_exists.mp hun
    have hm' : opener' ∈ g.untilBlank.toList := by simp [ho']
    exact isSome_max?_of_mem (mem_append_right _ hm')

/-- **What masks a line for `f`, opened since, masks it for `g`.** -/
theorem Shares.maskedBy (h : Shares low ps f g) (hf : f.Indexed) (hg : g.Indexed)
    (hs : f.maskedBy line at_ = some opener) (hn : low ≤ opener) :
    (g.maskedBy line at').isSome := by
  unfold LineMasker.maskedBy at hs ⊢
  rw [later_isSome]
  rcases later_eq_some hs with hr | hp
  · exact .inl (h.runOpener hr hn)
  right
  cases hl : f.pemLatest.keys.max? with
  | some latest =>
    rw [hl, Option.some_or] at hp
    cases hp
    obtain ⟨label, hm⟩ := hf.latest hl
    obtain ⟨old, new, hsp, hle, hold⟩ := h.pem label
    rw [hsp] at hm
    have hw : new ≠ [] := by
      rintro rfl
      rw [append_nil] at hm
      exact absurd (hold opener hm) (Nat.not_lt.mpr hn)
    obtain ⟨opener', ho'⟩ : ∃ opener', opener' ∈ g.openers label := by
      apply exists_mem_of_length_pos
      rw [← hle]
      exact length_pos_iff.mpr hw
    rw [Option.isSome_or, hg.latest_isSome ho', Bool.true_or]
  | none =>
    rw [hl, Option.none_or] at hp
    have ht : f.pemTouched line = true := by
      by_contra hno
      rw [if_neg hno] at hp
      cases hp
    have he : !(pemEvents line).isEmpty := by
      simpa [pemTouched, hl] using ht
    have ht' : g.pemTouched line = true := by
      rw [pemTouched, he, Bool.or_true]
    rw [Option.isSome_or, ht', if_pos rfl, Option.isSome_some, Bool.or_true]

theorem pemTouched_masked (h : f.pemTouched line = true) (at_ : ℕ) :
    (f.maskedBy line at_).isSome := by
  unfold maskedBy
  rw [later_isSome, Option.isSome_or, h, if_pos rfl]
  simp

/-! ## One line -/

/-- `g` follows `f`: it shares what `f` has open since an offset and what `f` knows of the
last line. -/
structure Follows (since : ℕ) (pairs : List (ℕ × ℕ)) (f g : LineMasker) : Prop where
  shares : Shares since pairs f g
  token : TokenFollows pairs f g
  flagValue : f.pendingFlagValue = g.pendingFlagValue
  tokenLine : f.pendingTokenLine = g.pendingTokenLine
  indexed : f.Indexed
  indexed' : g.Indexed

theorem Follows.onLine (h : Follows low ps f g) (line : List Char) (at_ at' : ℕ) :
    Shares low ps (f.onLine line at_) (g.onLine line at') := by
  have hs : Shares low ps { f with nextAt := at_ + byteLength line + 1 }
      { g with nextAt := at' + byteLength line + 1 } :=
    ⟨h.shares.fileClass, h.shares.blocks, h.shares.untilBlank, h.shares.pem⟩
  exact hs.closeRuns h.token line

theorem Indexed.onLine (h : f.Indexed) (line : List Char) (at_ : ℕ) :
    (f.onLine line at_).Indexed := by
  obtain ⟨untilBlank, blocks, ho⟩ := f.onLine_frame line at_
  rw [ho]
  exact h

theorem Follows.bodyOf (h : Follows low ps f g) (line : List Char) :
    f.bodyOf line = g.bodyOf line := by
  rw [LineMasker.bodyOf, LineMasker.bodyOf, h.shares.fileClass, h.flagValue, h.tokenLine]

/-- What a line leaves of the rest of the state. -/
theorem scanAt_flags (m : LineMasker) (line : List Char) (at_ : ℕ) :
    (m.scanAt line at_).1.fileClass = m.fileClass ∧
      (m.scanAt line at_).1.pendingFlagValue = (m.bodyOf line).pendingFlagValue ∧
      (m.scanAt line at_).1.pendingTokenLine = (m.bodyOf line).pendingTokenLine ∧
      (m.scanAt line at_).1.tokenAt =
        (if (m.bodyOf line).pendingTokenLine then some at_ else none) ∧
      (m.scanAt line at_).1.lookback = m.lookback ∧
      (m.scanAt line at_).1.longRun =
        (m.longRun || ((m.onLine line at_).maskedBy line at_).any fun opener =>
          decide (m.lookback < at_ - opener)) := by
  rw [scanAt_eq]
  obtain ⟨pemOpen, pemLatest, hm⟩ :=
    foldl_pemMarker_frame at_ (pemEvents line) (m.onLine line at_)
  obtain ⟨untilBlank', blocks', hop⟩ := foldl_openConstruct_frame line at_
    (m.bodyOf line).constructs (m.taken line at_)
  rw [hop, taken, hm]
  refine ⟨?_, rfl, rfl, rfl, ?_, rfl⟩
  · obtain ⟨untilBlank, blocks, ho⟩ := m.onLine_frame line at_
    rw [ho]
  · obtain ⟨untilBlank, blocks, ho⟩ := m.onLine_frame line at_
    rw [ho]

/-- **Over one line `g` keeps following.** -/
theorem Follows.scanAt (h : Follows low ps f g) (hfr : ∀ pair ∈ ps, pair.1 < at_)
    (line : List Char) (at' : ℕ) :
    Follows low ((at_, at') :: ps) (f.scanAt line at_).1 (g.scanAt line at').1 := by
  obtain ⟨-, hfg, hL, hk, -⟩ := f.scanAt_flags line at_
  obtain ⟨-, hfg', ht', hk', -⟩ := g.scanAt_flags line at'
  have hbo := h.bodyOf line
  refine ⟨?_, ?_, by rw [hfg, hfg', hbo], by rw [hL, ht', hbo],
    h.indexed.scanAt line at_, h.indexed'.scanAt line at'⟩
  · have hm := ((h.onLine line at_ at').mono fun pair hpr =>
      mem_cons_of_mem (at_, at') hpr).foldl_pemMarker at_ at' (pemEvents line)
    rw [scanAt_eq, scanAt_eq, hbo]
    refine Shares.foldl_openConstruct ?_ mem_cons_self _
    exact ⟨hm.fileClass, hm.blocks, hm.untilBlank, hm.pem⟩
  · intro pair hpr ht
    rw [hk, hbo] at ht
    rw [hk']
    split at ht
    next hnm =>
      rw [if_pos hnm]
      have hat : at_ = pair.1 := Option.some.inj ht
      rcases mem_cons.mp hpr with rfl | hpr
      · rfl
      · exact absurd (hfr pair hpr) (by omega)
    · cases ht

/-- **A line that is masked for `f` since is masked for `g`.** -/
theorem Follows.covers (h : Follows low ps f g)
    (hs : ∀ opener, (f.onLine line at_).maskedBy line at_ = some opener → low ≤ opener)
    (hb : Masked (f.scanAt line at_).2 b) : Masked (g.scanAt line at').2 b := by
  have hlt : b < byteLength line := (scanAt_placed f line at_).masked_lt hb
  rw [scanAt_eq] at hb ⊢
  cases hm : (f.onLine line at_).maskedBy line at_ with
  | some opener =>
    apply shownMasks_whole (.inr _) hlt
    exact (h.onLine line at_ at').maskedBy (h.indexed.onLine line at_)
      (h.indexed'.onLine line at') hm (hs opener hm)
  | none =>
    have huo : (f.onLine line at_).pemTouched line = false := by
      by_contra ht
      have hso := pemTouched_masked (Bool.not_eq_false _ ▸ ht) at_
      rw [hm] at hso
      cases hso
    rw [huo, hm, h.bodyOf line] at hb
    by_cases hw : (g.onLine line at').pemTouched line = true ∨
        ((g.onLine line at').maskedBy line at').isSome = true
    · exact shownMasks_whole hw hlt
    · rw [not_or, Bool.not_eq_true, Bool.not_eq_true] at hw
      rw [hw.1, hw.2]
      exact hb

/-! ## Starting late -/

/-- Nothing has been opened since an offset. -/
structure Before (since : ℕ) (m : LineMasker) : Prop where
  blocks : ∀ block ∈ m.blocks, block.opener < since
  untilBlank : ∀ opener, m.untilBlank = some opener → opener < since
  pem : ∀ label, ∀ opener ∈ m.openers label, opener < since

theorem before_withLookback (low : ℕ) (cls : FileClass) (back : ℕ) :
    Before low (withLookback cls back) :=
  ⟨by simp [withLookback], by simp [withLookback], fun lab opener h => by cases h⟩

section Before
variable {m : LineMasker}

theorem Before.onLine (h : Before low m) (line : List Char) (at_ : ℕ) :
    Before low (m.onLine line at_) := by
  unfold LineMasker.onLine closeRuns
  split
  · exact ⟨h.blocks, by simp, h.pem⟩
  · exact ⟨fun block hb => h.blocks block (mem_of_mem_filter hb), h.untilBlank, h.pem⟩

theorem Before.foldl_pemMarker (h : Before low m) (hat : at_ < low)
    (marks : List (Bool × List Char)) :
    Before low (marks.foldl (pemMarker at_) m) := by
  induction marks generalizing m with
  | nil => exact h
  | cons marker marks ih =>
    refine ih ⟨?_, ?_, fun lab opener hm => ?_⟩
    · obtain ⟨pemOpen, pemLatest, hf⟩ := foldl_pemMarker_frame at_ [marker] m
      rw [foldl_cons, foldl_nil] at hf
      rw [hf]
      exact h.blocks
    · obtain ⟨pemOpen, pemLatest, hf⟩ := foldl_pemMarker_frame at_ [marker] m
      rw [foldl_cons, foldl_nil] at hf
      rw [hf]
      exact h.untilBlank
    · rw [openers_pemMarker] at hm
      split at hm
      · split at hm
        · rcases mem_append.mp hm with hm | hm
          · exact h.pem lab opener hm
          · rwa [mem_singleton.mp hm]
        · exact h.pem lab opener (mem_of_mem_dropLast hm)
      · exact h.pem lab opener hm

theorem Before.foldl_openConstruct (h : Before low m) (hat : at_ < low)
    (constructs : List Construct) :
    Before low (constructs.foldl (openConstruct line at_) m) := by
  induction constructs generalizing m with
  | nil => exact h
  | cons con constructs ih =>
    refine ih ?_
    cases con with
    | none => exact h
    | untilBlank =>
      refine ⟨h.blocks, fun opener ho => ?_, h.pem⟩
      cases ho
      exact hat
    | block lineIndent =>
      refine ⟨fun block hb => ?_, h.untilBlank, h.pem⟩
      rcases mem_append.mp hb with hb | hb
      · exact h.blocks block (mem_of_mem_filter hb)
      · obtain rfl := mem_singleton.mp hb
        exact hat

theorem Before.scanAt (h : Before low m) (hat : at_ < low) (line : List Char) :
    Before low (m.scanAt line at_).1 := by
  have hm := (h.onLine line at_).foldl_pemMarker hat (pemEvents line)
  refine Before.foldl_openConstruct ?_ hat _
  exact ⟨hm.blocks, hm.untilBlank, hm.pem⟩

end Before

/-- **From its second line on, a masker started late follows**: what the next line has to know
of a line depends on that line alone. -/
theorem follows_first (h : Before low f) (hf : f.Indexed) (hat : at_ < low) (back : ℕ)
    (line : List Char) (at' : ℕ) :
    Follows low [] (f.scanAt line at_).1
      ((withLookback f.fileClass back).scanAt line at').1 := by
  generalize hg : withLookback f.fileClass back = g
  have hc : g.fileClass = f.fileClass := by rw [← hg]; rfl
  have hi : g.Indexed := hg ▸ indexed_withLookback f.fileClass back
  have he (label : List Char) : g.openers label = [] := by rw [← hg]; rfl
  have ha := h.scanAt hat line
  obtain ⟨hl, hfg, ht, -⟩ := f.scanAt_flags line at_
  obtain ⟨hcl, hfg', ht', -⟩ := g.scanAt_flags line at'
  have hpn := scanBody_pending f.fileClass f.pendingFlagValue f.pendingTokenLine line
  have hpn' := scanBody_pending g.fileClass g.pendingFlagValue g.pendingTokenLine line
  rw [hc] at hpn'
  refine ⟨⟨by rw [hl, hcl, hc], ?_, ?_, ?_⟩, by simp [TokenFollows], ?_, ?_,
    hf.scanAt line at_, hi.scanAt line at'⟩
  · intro block hb hs
    exact absurd (ha.blocks block hb) (Nat.not_lt.mpr hs)
  · intro opener ho hs
    exact absurd (ha.untilBlank opener ho) (Nat.not_lt.mpr hs)
  · -- Of each label, the keys opened before this line stay the older ones.
    have hL : Shares low [] (f.onLine line at_) (g.onLine line at') := by
      have hbe := h.onLine line at_
      obtain ⟨_, _, hfr⟩ := f.onLine_frame line at_
      obtain ⟨_, _, hr⟩ := g.onLine_frame line at'
      refine ⟨by rw [hfr, hr, hc], ?_, ?_, fun label => ?_⟩
      · intro block hb hs
        exact absurd (hbe.blocks block hb) (Nat.not_lt.mpr hs)
      · intro opener ho hs
        exact absurd (hbe.untilBlank opener ho) (Nat.not_lt.mpr hs)
      · refine ⟨_, [], (append_nil _).symm, ?_, hbe.pem label⟩
        rw [hr]
        exact (congrArg length (he label)).symm
    have hm := hL.foldl_pemMarker at_ at' (pemEvents line)
    have hp (m : LineMasker) (at_ : ℕ) (label : List Char) :
        (m.scanAt line at_).1.openers label =
          ((pemEvents line).foldl (pemMarker at_) (m.onLine line at_)).openers label := by
      rw [scanAt_eq]
      obtain ⟨_, _, hop⟩ := foldl_openConstruct_frame line at_ (m.bodyOf line).constructs
        (m.taken line at_)
      rw [hop]
      rfl
    intro label
    rw [hp, hp]
    exact hm.pem label
  · rw [hfg, hfg', bodyOf, bodyOf, hc, hpn.1, hpn'.1]
  · rw [ht, ht', bodyOf, bodyOf, hc, hpn.2, hpn'.2]

end LineMasker

/-! ## Runs -/

section
variable {f g : LineMasker} {low off : ℕ} {ps : List (ℕ × ℕ)} {rs : List (List Char)}

theorem maskLines_append (m : LineMasker) (off : ℕ) (rs raws' : List (List Char)) :
    maskLines m off (rs ++ raws') =
      ((maskLines (maskLines m off rs).1 (off + byteLength rs.flatten) raws').1,
        (maskLines m off rs).2 ++
          (maskLines (maskLines m off rs).1 (off + byteLength rs.flatten) raws').2) := by
  induction rs generalizing m off with
  | nil => rfl
  | cons raw rs ih =>
    simp [maskLines, ih, Nat.add_assoc]

theorem length_maskLines (m : LineMasker) (off : ℕ) (rs : List (List Char)) :
    (maskLines m off rs).2.length = rs.length := by
  induction rs generalizing m off with
  | nil => rfl
  | cons raw rs ih => simp [maskLines, ih]

theorem longRun_mono (m : LineMasker) (off : ℕ) (rs : List (List Char))
    (h : (maskLines m off rs).1.longRun = false) : m.longRun = false := by
  induction rs generalizing m off with
  | nil => exact h
  | cons raw rs ih =>
    have ha : (m.scanAt (lineBody raw) off).1.longRun = false := ih _ _ h
    obtain ⟨-, -, -, -, -, hlo⟩ := m.scanAt_flags (lineBody raw) off
    rw [hlo, Bool.or_eq_false_iff] at ha
    exact ha.1

theorem lookback_maskLines (m : LineMasker) (off : ℕ) (rs : List (List Char)) :
    (maskLines m off rs).1.lookback = m.lookback := by
  induction rs generalizing m off with
  | nil => rfl
  | cons raw rs ih =>
    obtain ⟨-, -, -, -, hl, -⟩ := m.scanAt_flags (lineBody raw) off
    exact (ih _ _).trans hl

theorem before_maskLines (m : LineMasker) (h : m.Before low) (off : ℕ)
    (rs : List (List Char)) (hra : ∀ raw ∈ rs, raw ≠ [])
    (hs : off + byteLength rs.flatten ≤ low) :
    (maskLines m off rs).1.Before low := by
  induction rs generalizing m off with
  | nil => exact h
  | cons raw rs ih =>
    have hp := byteLength_pos (hra raw (by simp))
    rw [flatten_cons, byteLength_append] at hs
    refine ih _ (h.scanAt (by omega) _) _ (fun raw' hr' => hra raw' (by simp [hr'])) ?_
    omega

theorem indexed_maskLines (m : LineMasker) (h : m.Indexed) (off : ℕ) (rs : List (List Char)) :
    (maskLines m off rs).1.Indexed := by
  induction rs generalizing m off with
  | nil => exact h
  | cons raw rs ih => exact ih _ (h.scanAt _ _) _

theorem fileClass_maskLines (m : LineMasker) (off : ℕ) (rs : List (List Char)) :
    (maskLines m off rs).1.fileClass = m.fileClass := by
  induction rs generalizing m off with
  | nil => rfl
  | cons raw rs ih =>
    obtain ⟨hc, -⟩ := m.scanAt_flags (lineBody raw) off
    exact (ih _ _).trans hc

/-- Over the lines of the context `g` keeps following. -/
theorem follows_context (h : f.Follows low ps g) (off : ℕ) (rs : List (List Char))
    (hfr : ∀ pair ∈ ps, pair.1 < off) (hra : ∀ raw ∈ rs, raw ≠ []) :
    ∃ pairs', LineMasker.Follows low pairs' (maskLines f off rs).1
        (g.scanLines (rs.map lineBody)).1 ∧
      ∀ pair ∈ pairs', pair.1 < off + byteLength rs.flatten := by
  induction rs generalizing f g ps off with
  | nil => exact ⟨ps, h, by simpa using hfr⟩
  | cons raw rs ih =>
    have hp := byteLength_pos (hra raw (by simp))
    have hsp := h.scanAt hfr (lineBody raw) g.nextAt
    have hfr' : ∀ pair ∈ (off, g.nextAt) :: ps, pair.1 < off + byteLength raw := by
      intro pair hpr
      rcases mem_cons.mp hpr with rfl | hpr
      · show off < off + byteLength raw
        omega
      · have hlt := hfr pair hpr
        omega
    obtain ⟨pairs', hf, hb⟩ := ih hsp _ hfr' fun raw' hr' =>
      hra raw' (by simp [hr'])
    refine ⟨pairs', hf, fun pair hpr => ?_⟩
    have hlt := hb pair hpr
    rw [flatten_cons, byteLength_append]
    omega

/-- **Over the lines of the window `g` masks what `f` masks**, if `f` finds no run longer than
its lookback and the shared openers reach back so far. -/
theorem follows_window (h : f.Follows low ps g) (hfr : ∀ pair ∈ ps, pair.1 < off)
    (hra : ∀ raw ∈ rs, raw ≠ []) (hs : (maskLines f off rs).1.longRun = false)
    (hn : low ≤ off - f.lookback) :
    List.Forall₂ (fun got full => ∀ b, Masked full b → Masked got b)
      (g.scanLines (rs.map lineBody)).2 (maskLines f off rs).2 := by
  induction rs generalizing f g ps off with
  | nil => exact .nil
  | cons raw rs ih =>
    have hp := byteLength_pos (hra raw (by simp))
    obtain ⟨-, -, -, -, hl, hlo⟩ := f.scanAt_flags (lineBody raw) off
    have hln : (f.scanAt (lineBody raw) off).1.longRun = false := longRun_mono _ _ _ hs
    rw [hlo, Bool.or_eq_false_iff] at hln
    refine .cons (fun b hb => h.covers ?_ hb) ?_
    · intro opener hm
      have hnr := hln.2
      rw [hm] at hnr
      have hle : ¬ f.lookback < off - opener := by simpa using hnr
      omega
    · have hs' : low ≤
          off + byteLength raw - (f.scanAt (lineBody raw) off).1.lookback := by
        omega
      refine ih (h.scanAt hfr (lineBody raw) g.nextAt) ?_
        (fun raw' hr' => hra raw' (by simp [hr'])) hs hs'
      intro pair hpr
      rcases mem_cons.mp hpr with rfl | hpr
      · show off < off + byteLength raw
        omega
      · have hlt := hfr pair hpr
        omega

end

/-! ## Windows -/

section
variable {lines : List (List Char)} {s w : ℕ}

/-- The context and the window are lines of the text. -/
theorem context_lines (h : Lines '\n' lines) (hle : s ≤ w) :
    splitInclusive '\n' (slice lines.flatten (byteLength (lines.take s).flatten)
        (byteLength (lines.take w).flatten)) = (lines.drop s).take (w - s) ∧
      splitInclusive '\n' (dropBytes (byteLength (lines.take w).flatten) lines.flatten) =
        lines.drop w := by
  have hm : lines.take w = lines.take s ++ (lines.drop s).take (w - s) := by
    rw [← take_add, Nat.add_sub_cancel' hle]
  have ha : lines.flatten =
      (lines.take s).flatten ++
        (((lines.drop s).take (w - s)).flatten ++ (lines.drop w).flatten) := by
    rw [← append_assoc, ← flatten_append, ← hm, ← flatten_append, take_append_drop]
  constructor
  · rw [hm, flatten_append, byteLength_append]
    conv_lhs => rw [ha]
    rw [slice_append, ((h.drop s).take (w - s)).split]
  · conv_lhs => rw [← take_append_drop w lines, flatten_append]
    rw [take_append_drop, dropBytes_byteLength, (h.drop w).split]

/-- The masks from a line on are those of a masker that has taken the lines before it. -/
theorem drop_maskLines (m : LineMasker) (lines : List (List Char)) (w : ℕ) :
    (maskLines m 0 lines).2.drop w =
      (maskLines (maskLines m 0 (lines.take w)).1 (byteLength (lines.take w).flatten)
        (lines.drop w)).2 := by
  conv_lhs => rw [← take_append_drop w lines, maskLines_append, Nat.zero_add]
  rw [drop_append, length_maskLines]
  by_cases hw : w ≤ lines.length
  · rw [length_take, Nat.min_eq_left hw, Nat.sub_self, drop_zero, drop_of_length_le, nil_append]
    rw [length_maskLines, length_take]
    omega
  · rw [drop_of_length_le (by rw [length_maskLines, length_take]; omega),
      drop_of_length_le (by omega : lines.length ≤ w), nil_append, maskLines,
      drop_nil]

/-- A masker that follows from line `k` on covers the lines from `w` on. -/
theorem covers_of_follows {m g : LineMasker} {low k : ℕ} (hl : Lines '\n' lines)
    (hf : LineMasker.Follows low [] (maskLines m 0 (lines.take k)).1 g) (hk : k ≤ w)
    (hn : low ≤ byteLength (lines.take w).flatten - m.lookback)
    (hh : (maskLines m 0 lines).1.longRun = false) :
    List.Forall₂ (fun window full => ∀ b, Masked full b → Masked window b)
      ((g.scanLines (((lines.drop k).take (w - k)).map lineBody)).1.scanLines
        ((lines.drop w).map lineBody)).2
      ((maskLines m 0 lines).2.drop w) := by
  have hne {rs : List (List Char)} (hb : ∀ raw ∈ rs, raw ∈ lines) :
      ∀ raw ∈ rs, raw ≠ [] := fun raw hr => hl.ne_nil (hb raw hr)
  have hm : lines.take w = lines.take k ++ (lines.drop k).take (w - k) := by
    rw [← take_add, Nat.add_sub_cancel' hk]
  obtain ⟨ps, hat, hfr⟩ := follows_context hf (byteLength (lines.take k).flatten)
    ((lines.drop k).take (w - k)) (by simp)
    (hne fun raw hr => mem_of_mem_drop (mem_of_mem_take hr))
  have hs : (maskLines (maskLines m 0 (lines.take k)).1 (byteLength (lines.take k).flatten)
      ((lines.drop k).take (w - k))).1 = (maskLines m 0 (lines.take w)).1 := by
    rw [hm, maskLines_append, Nat.zero_add]
  rw [hs] at hat
  rw [← byteLength_append, ← flatten_append, ← hm] at hfr
  rw [drop_maskLines]
  refine follows_window hat hfr (hne fun raw hr => mem_of_mem_drop hr) ?_ ?_
  · rw [← take_append_drop w lines, maskLines_append, Nat.zero_add] at hh
    exact hh
  · rw [lookback_maskLines]
    exact hn

end

/-- Two maskers that have read nothing follow each other. -/
theorem follows_withLookback (cls : FileClass) (back back' : ℕ) :
    LineMasker.Follows 0 [] (.withLookback cls back)
      (.withLookback cls back') := by
  refine ⟨⟨rfl, by simp [withLookback], by simp [withLookback],
    fun lab => ⟨[], [], rfl, rfl, by simp⟩⟩, by simp [LineMasker.TokenFollows], rfl, rfl,
    indexed_withLookback cls back,
    indexed_withLookback cls back'⟩

/-- A masker that starts with a line of a text follows from the next line on. -/
theorem follows_second (cls : FileClass) (back : ℕ) {lines : List (List Char)}
    (hl : Lines '\n' lines) {s : ℕ} {line : List Char} (hln : lines[s]? = some line) :
    LineMasker.Follows (byteLength (lines.take (s + 1)).flatten) []
      (maskLines (.withLookback cls back) 0 (lines.take (s + 1))).1
      ((new cls).scan (lineBody line)).1 := by
  have htk : lines.take (s + 1) = lines.take s ++ [line] := by
    rw [take_add_one, hln]
    rfl
  have ha : (maskLines (.withLookback cls back) 0 (lines.take (s + 1))).1 =
      ((maskLines (.withLookback cls back) 0 (lines.take s)).1.scanAt (lineBody line)
        (byteLength (lines.take s).flatten)).1 := by
    rw [htk, maskLines_append, Nat.zero_add]
    rfl
  have hp := byteLength_pos (hl.ne_nil (mem_of_getElem? hln))
  have hsz : byteLength (lines.take (s + 1)).flatten =
      byteLength (lines.take s).flatten + byteLength line := by
    rw [htk, flatten_append, byteLength_append, flatten_singleton]
  have hb := before_maskLines _
    (before_withLookback (byteLength (lines.take (s + 1)).flatten) cls back)
    0 (lines.take s) (fun raw hr => hl.ne_nil (mem_of_mem_take hr)) (by omega)
  have hf := follows_first hb
    (indexed_maskLines _ (indexed_withLookback cls back) 0 (lines.take s))
    (by omega : byteLength (lines.take s).flatten < byteLength (lines.take (s + 1)).flatten)
    lookbackBytes (lineBody line) 0
  rw [ha]
  rw [fileClass_maskLines] at hf
  exact hf

/-- **A window masks every byte that masking the whole text masks**, wherever the window
starts, if no masked run of the text reaches further than the lookback. -/
theorem windowMasks_covers (fileClass : FileClass) (text : List Char) (lookback w : ℕ)
    (hshort : (maskWithLookback fileClass text lookback).longConstruct = false) :
    List.Forall₂ (fun window full => ∀ b, Masked full b → Masked window b)
      (windowMasks fileClass text (lineOffset (Utf8.encode text) w) lookback)
      ((textMasks fileClass text lookback).2.drop w) := by
  have hl : Lines '\n' (splitInclusive '\n' text) := lines_splitInclusive text
  have ht : (splitInclusive '\n' text).flatten = text := splitInclusive_flatten text
  unfold textMasks
  have hs' : (maskLines (.withLookback fileClass lookback) 0
      (splitInclusive '\n' text)).1.longRun = false := hshort
  generalize splitInclusive '\n' text = lines at hl ht hs'
  subst ht
  have ho : lineOffset (encode lines.flatten) w = byteLength (lines.take w).flatten := by
    rw [encode_flatten, lineOffset_lines (lines_encode hl), byteLength, encode_flatten, map_take]
  obtain ⟨s, hs, hc⟩ := lookbackStartWith_lines (lines_encode hl) w lookback
  have hn (text : List Char) : (encode text).length = byteLength text := rfl
  simp only [← encode_flatten, ← map_take, hn, length_map] at hs hc
  have hle : s ≤ w := by omega
  obtain ⟨hco, hw⟩ := context_lines hl hle
  unfold windowMasks
  rw [ho]
  dsimp only
  rw [hs, hco, hw]
  rcases hc with rfl | ⟨hsw, hsl, hsi⟩
  · exact covers_of_follows hl (follows_withLookback fileClass lookback lookbackBytes) hle
      (Nat.zero_le _) hs'
  -- The first line of the context only makes the two maskers agree on what opened on it.
  obtain ⟨line, hln⟩ : ∃ line, lines[s]? = some line := ⟨_, List.getElem?_eq_getElem hsl⟩
  have hd : (lines.drop s).take (w - s) = line :: (lines.drop (s + 1)).take (w - (s + 1)) := by
    rw [drop_eq_getElem?_toList_append, hln, show w - s = w - (s + 1) + 1 by omega]
    rfl
  rw [hd, map_cons, scanLines]
  exact covers_of_follows hl (follows_second fileClass lookback hl hln) hsw hsi
    hs'

/-- A window that starts inside a quoted value of two lines masks the second of them. -/
theorem windowMasks_covers_value :
    let text := "A=1\nB=2\nC=3\nX_TOKEN=\"a\nb\"\n".toList
    lookbackStartWith (encode text) (lineOffset (encode text) 4) 12 = 4 ∧
      (textMasks .plain text 12).2.drop 4 = [[⟨⟨0, 2⟩, tokenLine⟩]] ∧
      List.Forall₂ (fun window full => ∀ b, Masked full b → Masked window b)
        (windowMasks .plain text (lineOffset (encode text) 4) 12)
        ((textMasks .plain text 12).2.drop 4) :=
  ⟨by decide +kernel, by decide +kernel, windowMasks_covers .plain _ 12 4 (by decide +kernel)⟩

end ModelProxy.Redact
