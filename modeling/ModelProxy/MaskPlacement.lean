import ModelProxy.LineMasker

/-! # Where the masks of a line lie

The masks of a line come in order, do not overlap, lie on character boundaries within the
line, and none is replaced by nothing.
-/
namespace ModelProxy.Redact
open List LineMasker
open Utf8 (byteLength byteLength_append)

/-- A position between two characters of a line. -/
def Boundary (line : List Char) (n : ℕ) : Prop :=
  ∃ before after, line = before ++ after ∧ byteLength before = n

variable {n' : ℕ} {cls : FileClass} {merged : List (LineMask × Bool)} {c : Char}

section Boundaries
variable {l : List Char}

theorem boundary_zero (l : List Char) : Boundary l 0 := ⟨[], l, rfl, rfl⟩

theorem boundary_length (l : List Char) : Boundary l (byteLength l) :=
  ⟨l, [], (append_nil _).symm, rfl⟩

variable {n : ℕ}

theorem Boundary.le (h : Boundary l n) : n ≤ byteLength l := by
  obtain ⟨pre, after, rfl, rfl⟩ := h
  rw [byteLength_append]
  omega

/-- The end of a line begins on a boundary. -/
theorem boundary_of_suffix {tail : List Char} (h : tail <:+ l) :
    Boundary l (byteLength l - byteLength tail) := by
  obtain ⟨pre, rfl⟩ := h
  refine ⟨pre, tail, rfl, ?_⟩
  rw [byteLength_append]
  omega

/-- Two boundaries cut a line in three. -/
theorem Boundary.split (h : Boundary l n) (h' : Boundary l n') (hle : n ≤ n') :
    ∃ pre middle after, l = pre ++ (middle ++ after) ∧ byteLength pre = n ∧
      byteLength pre + byteLength middle = n' := by
  obtain ⟨pre, rest, hln, rfl⟩ := h
  obtain ⟨pre', after, hln', rfl⟩ := h'
  rw [hln] at hln'
  obtain ⟨middle, rfl, rfl⟩ := append_eq_append_of_le hln' hle
  exact ⟨pre, middle, after, hln, rfl, (byteLength_append pre middle).symm⟩

/-- The slice between two boundaries is what the text goes on with. -/
theorem Boundary.slice (h : Boundary l n) (h' : Boundary l n') (hle : n ≤ n') :
    dropBytes n l = ModelProxy.slice l n n' ++ dropBytes n' l ∧
      n + byteLength (ModelProxy.slice l n n') = n' := by
  obtain ⟨pre, middle, after, rfl, rfl, rfl⟩ := h.split h' hle
  rw [slice_append, dropBytes_byteLength, ← byteLength_append, ← append_assoc, dropBytes_byteLength]
  exact ⟨rfl, rfl⟩

end Boundaries

/-- A character a terminal prints as it stands. -/
def Shown (c : Char) : Prop := 0x20 ≤ c.toNat ∧ c.toNat ≤ 0x7e ∨ 0xa0 ≤ c.toNat

instance : DecidablePred Shown := fun c =>
  inferInstanceAs (Decidable (0x20 ≤ c.toNat ∧ c.toNat ≤ 0x7e ∨ 0xa0 ≤ c.toNat))

/-- What may stand for a masked part. -/
structure IsToken (text : List Char) : Prop where
  ne_nil : text ≠ []
  shown : ∀ c ∈ text, Shown c

theorem shown_of_all {text : List Char} (h : (text.all fun c => decide (Shown c)) = true) :
    ∀ c ∈ text, Shown c := by
  simpa using h

theorem isToken_bare : IsToken tokenBare := ⟨by decide, shown_of_all (by decide)⟩

theorem isToken_line : IsToken tokenLine := ⟨by decide, shown_of_all (by decide)⟩

theorem isToken_token (chars : ℕ) : IsToken (token chars) := by
  refine ⟨by simp [token, maskOpen], fun c hc => ?_⟩
  have hop : ∀ c ∈ maskOpen ++ [':'], Shown c := shown_of_all (by decide)
  have hl : ∀ c ∈ maskClose, Shown c := shown_of_all (by decide)
  have hdg : ∀ c ∈ (toString chars).toList, Shown c := by
    intro c hc
    have hc' : c ∈ Nat.toDigits 10 chars := by simpa [toString, repr] using hc
    have hr : 0x30 ≤ c.toNat ∧ c.toNat ≤ 0x39 := Char.isDigit_iff_toNat.mp
      (Nat.isDigit_of_mem_toDigits (by decide) (by decide) hc')
    exact .inl ⟨by omega, by omega⟩
  have ht : token chars = (maskOpen ++ [':']) ++ (toString chars).toList ++ maskClose := by
    simp [token]
  rw [ht] at hc
  rcases mem_append.mp hc with hc | hc
  · rcases mem_append.mp hc with hc | hc
    · exact hop c hc
    · exact hdg c hc
  · exact hl c hc

/-- A mask on boundaries of its line, with a token in its place. -/
structure MaskOk (line : List Char) (mask : LineMask) : Prop where
  ordered : mask.range.start ≤ mask.range.stop
  start : Boundary line mask.range.start
  stop : Boundary line mask.range.stop
  token : IsToken mask.token

/-- Masks in order from a position on. -/
def Placed (line : List Char) : ℕ → List LineMask → Prop
  | _, [] => True
  | cursor, mask :: masks =>
    cursor ≤ mask.range.start ∧ MaskOk line mask ∧ Placed line mask.range.stop masks

section Masks
variable {l : List Char} {mask : LineMask} {masks : List LineMask}

theorem wholeMask_ok {tok : List Char} (h : IsToken tok) : MaskOk l (wholeMask l tok) :=
  ⟨Nat.zero_le _, boundary_zero l, boundary_length l, h⟩

variable {start cursor : ℕ} {opened : Construct}

theorem tailMask_ok (hst : Boundary l start) (h : mask ∈ (tailMask l start).toList) :
    MaskOk l mask := by
  unfold tailMask at h
  split at h
  next hlt =>
    obtain rfl := mem_singleton.mp h
    exact ⟨le_of_lt hlt, hst, boundary_length l, isToken_token _⟩
  · cases h

/-- A rule's masks lie within the line. -/
theorem classRule_ok (h : mask ∈ (classRule cls l).2.1) : MaskOk l mask := by
  cases cls with
  | plain => cases h
  | pemKey => cases h
  | sshPrivateKey =>
    simp only [classRule] at h
    split at h
    · cases h
    · obtain rfl := mem_singleton.mp h
      exact wholeMask_ok isToken_bare
  | hfToken =>
    simp only [classRule] at h
    split at h
    · cases h
    · obtain rfl := mem_singleton.mp h
      exact wholeMask_ok (isToken_token _)
  | dotenv =>
    simp only [classRule] at h
    split at h
    · cases h
    split at h
    · cases h
    split at h
    next tail hs =>
      exact tailMask_ok (boundary_of_suffix (Pattern.search_suffix hs)) h
    next =>
      obtain rfl := mem_singleton.mp h
      exact wholeMask_ok isToken_bare

/-- A continued value begins on a boundary. -/
theorem continuationValue_boundary {range : ByteRange}
    (h : continuationValue l = some (range, opened)) : Boundary l range.start := by
  have hr : (if ['-', ' '] <+: trimStart l then trimStart ((trimStart l).drop 2)
      else trimStart l) <:+ l := by
    split
    · exact ((dropWhile_suffix _).trans (drop_suffix 2 _)).trans (dropWhile_suffix _)
    · exact dropWhile_suffix _
  unfold continuationValue at h
  dsimp only at h
  generalize (if ['-', ' '] <+: trimStart l then trimStart ((trimStart l).drop 2)
    else trimStart l) = rest at h hr
  split at h
  · cases h
  split at h
  · cases h
    exact boundary_length l
  split at h
  · cases h
  · cases h
    exact boundary_of_suffix hr

/-- A flag's value begins on a boundary. -/
theorem firstFlagFrom_boundary {n : ℕ} {begins : Bool} {rest : List Char}
    (hr : rest <:+ l) (h : firstFlagFrom l n begins rest = some (start, opened)) :
    Boundary l start := by
  induction n generalizing begins rest with
  | zero => cases h
  | succ n ih =>
    unfold firstFlagFrom at h
    split at h
    · cases h
    next tail hs =>
    have htl := (Pattern.search_suffix hs).trans hr
    dsimp only at h
    split at h
    · cases h
      exact boundary_length l
    split at h
    · exact ih htl h
    · cases h
      exact boundary_of_suffix htl

theorem firstFlag_boundary (h : firstFlag l = some (start, opened)) : Boundary l start := by
  unfold firstFlag at h
  split at h
  · cases h
  · exact firstFlagFrom_boundary (suffix_refl _) h

/-- **The rules mask whole lines and ends of lines.** -/
theorem scanBody_ok {pendingFlagValue pendingTokenLine : Bool}
    (h : mask ∈ (scanBody cls pendingFlagValue pendingTokenLine l).masks) : MaskOk l mask := by
  have hc {mask : LineMask} (h : mask ∈ (classRule cls l).2.1) := classRule_ok h
  unfold scanBody at h
  generalize classRule cls l = rule at h hc
  dsimp only at h hc
  split at h
  · split at h
    · obtain rfl := mem_singleton.mp h
      exact wholeMask_ok isToken_line
    split at h
    · obtain rfl := mem_singleton.mp h
      exact wholeMask_ok isToken_line
    rcases mem_append.mp h with h | h
    · rcases mem_append.mp h with h | h
      · exact hc h
      · split at h
        next range opened hv =>
          split at hv
          · exact tailMask_ok (continuationValue_boundary hv) h
          · cases hv
        · cases h
    · split at h
      next start opened hfg => exact tailMask_ok (firstFlag_boundary hfg) h
      · cases h
  · exact hc h

/-! ## Merging -/

/-- Merged masks, the last one first. -/
def Merged (line : List Char) : List (LineMask × Bool) → Prop
  | [] => True
  | (mask, _) :: earlier =>
    MaskOk line mask ∧ (∀ last ∈ earlier.head?, last.1.range.stop ≤ mask.range.start) ∧
      Merged line earlier

/-- Joining one more mask keeps the order. -/
theorem merged_absorb (h : Merged l merged) (hma : MaskOk l mask)
    (hs : ∀ last ∈ merged.head?, last.1.range.start ≤ mask.range.start) :
    Merged l (absorb merged mask) ∧
      ∀ last ∈ (absorb merged mask).head?, last.1.range.start ≤ mask.range.start := by
  cases merged with
  | nil => exact ⟨⟨hma, by simp, trivial⟩, by simp [absorb]⟩
  | cons last earlier =>
    obtain ⟨last, absorbed⟩ := last
    obtain ⟨hok, hg, he⟩ := h
    have hst : last.range.start ≤ mask.range.start := hs _ rfl
    simp only [absorb]
    split
    next ho =>
      refine ⟨⟨⟨?_, hok.start, ?_, hok.token⟩, hg, he⟩, ?_⟩
      · exact le_trans hok.ordered (le_max_left _ _)
      · show Boundary l (max last.range.stop mask.range.stop)
        rcases le_total last.range.stop mask.range.stop with hle | hle
        · rw [max_eq_right hle]
          exact hma.stop
        · rw [max_eq_left hle]
          exact hok.stop
      · rintro _ ⟨⟩
        exact hst
    next ha =>
    refine ⟨⟨hma, ?_, hok, hg, he⟩, ?_⟩
    · rintro _ ⟨⟩
      exact Nat.le_of_not_lt ha
    · rintro _ ⟨⟩
      exact le_refl _

theorem maskBefore_total (a b : LineMask) : MaskBefore a b ∨ MaskBefore b a := by
  unfold MaskBefore
  omega

theorem merged_foldl {sorted : List LineMask} (hs : sorted.Pairwise MaskBefore)
    (hok : ∀ mask ∈ sorted, MaskOk l mask) (h : Merged l merged)
    (hf : ∀ last ∈ merged.head?, ∀ mask ∈ sorted, last.1.range.start ≤ mask.range.start) :
    Merged l (sorted.foldl absorb merged) := by
  induction sorted generalizing merged with
  | nil => exact h
  | cons mask sorted ih =>
    obtain ⟨hb, hs⟩ := pairwise_cons.mp hs
    obtain ⟨hm, hla⟩ := merged_absorb h (hok mask (by simp)) fun last hla =>
      hf last hla mask (by simp)
    refine ih hs (fun mask' hma' => hok mask' (by simp [hma'])) hm ?_
    intro last hme mask' hma'
    have hle : mask.range.start ≤ mask'.range.start := by
      rcases hb mask' hma' with hlt | heq
      · exact le_of_lt hlt
      · exact le_of_eq heq.1
    exact le_trans (hla last hme) hle

/-- Reversed, merged masks are placed up to the first of them. -/
theorem placed_append {masks' : List LineMask} (h : Placed l cursor masks)
    (h' : Placed l (masks.getLast?.elim cursor fun last => last.range.stop) masks') :
    Placed l cursor (masks ++ masks') := by
  induction masks generalizing cursor with
  | nil => exact h'
  | cons mask masks ih =>
    obtain ⟨hle, hok, hr⟩ := h
    refine ⟨hle, hok, ih hr ?_⟩
    cases masks with
    | nil => exact h'
    | cons next masks =>
      exact h'

theorem recount_ok {merged : LineMask × Bool} (h : MaskOk l merged.1) :
    MaskOk l (recount l merged) := by
  unfold recount
  split
  · exact ⟨h.ordered, h.start, h.stop, isToken_token _⟩
  · exact h

@[simp] theorem recount_range (merged : LineMask × Bool) :
    (recount l merged).range = merged.1.range := by
  unfold recount
  split <;> rfl

theorem placed_merged : ∀ {merged : List (LineMask × Bool)}, Merged l merged →
    Placed l 0 (merged.reverse.map (recount l)) := by
  intro merged
  induction merged with
  | nil => intro _; trivial
  | cons last earlier ih =>
    intro h
    obtain ⟨hok, hg, he⟩ := h
    rw [reverse_cons, map_append]
    refine placed_append (ih he) ⟨?_, recount_ok hok, trivial⟩
    rw [getLast?_map, getLast?_reverse]
    cases hh : earlier.head? with
    | none => exact Nat.zero_le _
    | some pre =>
      show (recount l pre).range.stop ≤ _
      rw [recount_range, recount_range]
      exact hg pre hh

/-- **Merged masks are in order.** -/
theorem merge_placed (hok : ∀ mask ∈ masks, MaskOk l mask) : Placed l 0 (merge masks l) := by
  have hpm := perm_insertionSort MaskBefore masks
  have : Std.Total MaskBefore := ⟨maskBefore_total⟩
  have : IsTrans LineMask MaskBefore := ⟨fun a b c h h' => by unfold MaskBefore at *; omega⟩
  have hs := pairwise_insertionSort MaskBefore masks
  refine placed_merged (merged_foldl hs (fun mask hma => ?_) trivial ?_)
  · exact hok mask (hpm.mem_iff.mp hma)
  · intro last hla
    cases hla

/-- The shown masks follow each other. -/
theorem shownMasks_placed {pemTouched masked : Bool} (hok : ∀ mask ∈ masks, MaskOk l mask) :
    Placed l 0 (shownMasks l pemTouched masked masks) := by
  have hw : Placed l 0 [wholeMask l tokenBare] :=
    ⟨Nat.zero_le _, wholeMask_ok isToken_bare, trivial⟩
  unfold shownMasks
  split
  · exact hw
  split
  · split
    · split
      · exact ⟨Nat.zero_le _, hok _ (by simp), trivial⟩
      · exact hw
    · exact hw
  split
  · trivial
  · exact merge_placed hok

/-- **The masks of a line are in order and on its boundaries.** -/
theorem scanAt_placed (m : LineMasker) (l : List Char) (at_ : ℕ) :
    Placed l 0 (m.scanAt l at_).2 :=
  shownMasks_placed fun _ hma => scanBody_ok hma

theorem Placed.maskOk (h : Placed l cursor masks) (hma : mask ∈ masks) : MaskOk l mask := by
  induction masks generalizing cursor with
  | nil => cases hma
  | cons first masks ih =>
    rcases mem_cons.mp hma with rfl | hma
    · exact h.2.1
    · exact ih h.2.2 hma

/-- A masked line has the characters of the line and those of the tokens. -/
theorem mem_render (h : c ∈ render l cursor masks) : c ∈ l ∨ ∃ mask ∈ masks, c ∈ mask.token := by
  induction masks generalizing cursor with
  | nil => exact .inl (mem_of_mem_slice h)
  | cons mask masks ih =>
    rw [render, mem_append, mem_append] at h
    rcases h with (h | h) | h
    · exact .inl (mem_of_mem_slice h)
    · exact .inr ⟨mask, by simp, h⟩
    · rcases ih h with h | ⟨mask', hma', h⟩
      · exact .inl h
      · exact .inr ⟨mask', by simp [hma'], h⟩

/-- **Masking adds only characters that are shown.** -/
theorem mem_maskLineCounted {m : LineMasker} (h : c ∈ (m.maskLineCounted l).2.1) :
    c ∈ l ∨ Shown c := by
  unfold maskLineCounted at h
  dsimp only at h
  split at h
  · exact .inl h
  · rcases mem_render h with h | ⟨mask, hma, h⟩
    · exact .inl h
    · exact .inr (((scanAt_placed m l m.nextAt).maskOk hma).token.shown c h)

end Masks

end ModelProxy.Redact
