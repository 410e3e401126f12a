import Mathlib.Data.List.Infix
import ModelProxy.CommandOutput

/-! # What redaction leaves of a text

A credential is a product prefix and the credential characters after it.  A prefix is made
of credential characters itself, so a match is the whole run of credential characters it
starts, and the marker, which has none at its ends, never helps to form a new one.
-/
namespace ModelProxy.CommandOutput
open List

/-! ## Credentials in a text -/

/-- Some prefix stands at the start of the text with a credential character after it. -/
def Starts (text : List ℕ) : Prop :=
  ∃ start ∈ credentialPrefixes, ∃ code, credentialChar code = true ∧ start ++ [code] <+: text

/-- No prefix stands anywhere in the text with a credential character after it. -/
def CredentialFree (text : List ℕ) : Prop :=
  ∀ start ∈ credentialPrefixes, ∀ code, credentialChar code = true → ¬ start ++ [code] <:+: text

/-- How many credential characters the text starts with. -/
def runLength (text : List ℕ) : ℕ := (text.takeWhile credentialChar).length

/-- Position `k` is in the body of a credential: after its prefix, in the same run. -/
def InBody (text : List ℕ) (k : ℕ) : Prop :=
  ∃ i, ∃ start ∈ credentialPrefixes, start <+: text.drop i ∧ i + start.length ≤ k ∧
    k < i + runLength (text.drop i)

theorem prefix_chars : ∀ start ∈ credentialPrefixes, ∀ cp ∈ start, credentialChar cp = true := by
  decide

theorem prefix_ne_nil : ∀ start ∈ credentialPrefixes, start ≠ [] := by
  decide

theorem marker_split : redactedMarker = 0x5b :: (literal "redacted" ++ [0x5d]) := by
  decide

section Run
variable {cs : List ℕ} {k : ℕ}

theorem runLength_append {start : List ℕ} (h : ∀ cp ∈ start, credentialChar cp = true)
    (rest : List ℕ) : runLength (start ++ rest) = start.length + runLength rest := by
  unfold runLength
  rw [takeWhile_append_of_pos h, length_append]

theorem runLength_cons (cp : ℕ) (cs : List ℕ) : runLength (cp :: cs) =
    if credentialChar cp then runLength cs + 1 else 0 := by
  unfold runLength
  rw [takeWhile_cons]
  split <;> rfl

theorem getElem?_run (h : k < runLength cs) :
    ∃ cp, cs[k]? = some cp ∧ credentialChar cp = true := by
  induction cs generalizing k with
  | nil => exact absurd h (Nat.not_lt_zero k)
  | cons cp cs ih =>
    rw [runLength_cons] at h
    split at h
    next hch =>
      cases k with
      | zero => exact ⟨cp, rfl, hch⟩
      | succ k => exact ih (Nat.lt_of_succ_lt_succ h)
    next => exact absurd h (Nat.not_lt_zero k)

/-- The run stops at the first other character. -/
theorem getElem?_runLength {code : ℕ} (h : cs[runLength cs]? = some code) :
    credentialChar code = false := by
  induction cs with
  | nil => simp at h
  | cons first cs ih =>
    rw [runLength_cons] at h
    split at h
    next => exact ih h
    next hch =>
      obtain rfl : first = code := by simpa using h
      simpa using hch

theorem runLength_take (n : ℕ) : runLength (cs.take n) = min n (runLength cs) := by
  induction cs generalizing n with
  | nil => simp [runLength]
  | cons cp cs ih =>
    cases n with
    | zero => simp [runLength]
    | succ n =>
      rw [take_succ_cons, runLength_cons, runLength_cons, ih]
      split <;> omega

theorem drop_runLength (cs : List ℕ) :
    cs.drop (runLength cs) = cs.dropWhile credentialChar := by
  induction cs with
  | nil => rfl
  | cons cp cs ih =>
    rw [runLength_cons, dropWhile_cons]
    split
    next => exact ih
    next => rfl

/-- A run that starts before the end of another does not pass it. -/
theorem run_le {i j : ℕ} (h : j ≤ i + runLength (cs.drop i)) :
    j + runLength (cs.drop j) ≤ i + runLength (cs.drop i) := by
  by_contra hps
  have hin : i + runLength (cs.drop i) - j < runLength (cs.drop j) := by omega
  obtain ⟨code, hcd, hch⟩ := getElem?_run hin
  have hst : (cs.drop i)[runLength (cs.drop i)]? = some code := by
    rw [getElem?_drop] at hcd ⊢
    rw [← hcd]
    congr 1
    omega
  rw [getElem?_runLength hst] at hch
  exact Bool.noConfusion hch

end Run

/-! ## Replacing credentials -/

variable {cp : ℕ} {w behind cs : List ℕ}

section Replace
variable {cs : List ℕ}

theorem Starts.ne_nil (h : Starts cs) : cs ≠ [] := by
  obtain ⟨start, hst, code, -, hb⟩ := h
  rintro rfl
  simp at hb

/-- A match is the whole run it starts. -/
theorem match_length {start : List ℕ} (hst : start ∈ credentialPrefixes) (hb : start <+: cs) :
    start.length + ((cs.drop start.length).takeWhile credentialChar).length = runLength cs := by
  obtain ⟨rest, rfl⟩ := hb
  rw [runLength_append (prefix_chars start hst), drop_left]
  rfl

/-- Where a credential starts. -/
theorem starts_iff : Starts cs ↔
    ∃ start ∈ credentialPrefixes, start <+: cs ∧ start.length < runLength cs := by
  constructor
  · rintro ⟨start, hst, code, hcd, rest, rfl⟩
    refine ⟨start, hst, ⟨code :: rest, by simp⟩, ?_⟩
    rw [append_assoc, runLength_append (prefix_chars start hst), singleton_append,
      runLength_cons, if_pos hcd]
    omega
  · rintro ⟨start, hst, ⟨rest, rfl⟩, hlt⟩
    obtain ⟨code, hcd, hch⟩ := getElem?_run hlt
    refine ⟨start, hst, code, hch, ?_⟩
    cases rest with
    | nil => simp at hcd
    | cons first rest =>
      obtain rfl : first = code := by simpa using hcd
      exact ⟨rest, by simp⟩

theorem credentialLength_starts (h : Starts cs) :
    credentialLength cs = some (runLength cs) := by
  cases hfd : credentialLength cs with
  | none =>
    obtain ⟨start, hst, hb, hlt⟩ := starts_iff.mp h
    have hno := findSome?_eq_none_iff.mp hfd start hst
    have hbo : (cs.drop start.length).takeWhile credentialChar ≠ [] := fun hn => by
      have := match_length hst hb
      rw [hn, length_nil] at this
      omega
    have hin := isPrefixOf_iff_prefix.mpr hb
    rw [if_pos ⟨hin, hbo⟩] at hno
    exact absurd hno (by simp)
  | some length =>
    obtain ⟨start, hst, hl⟩ := exists_of_findSome?_eq_some hfd
    dsimp only at hl
    split at hl
    next hm =>
      have hb := isPrefixOf_iff_prefix.mp hm.1
      rw [match_length hst hb] at hl
      exact hl.symm
    next => exact absurd hl (by simp)

theorem credentialLength_none (h : ¬ Starts cs) : credentialLength cs = none := by
  refine findSome?_eq_none_iff.mpr fun start hst => if_neg fun hm => h ?_
  have hb := isPrefixOf_iff_prefix.mp hm.1
  refine starts_iff.mpr ⟨start, hst, hb, ?_⟩
  rw [← match_length hst hb]
  have := length_pos_of_ne_nil hm.2
  omega

theorem replaceCredentials_skip (skip : ℕ) :
    replaceCredentials cs skip = replaceCredentials (cs.drop skip) 0 := by
  induction cs generalizing skip with
  | nil => simp [replaceCredentials]
  | cons cp cs ih =>
    cases skip with
    | zero => rfl
    | succ skip => rw [replaceCredentials, ih, drop_succ_cons]

theorem replaceCredentials_starts (h : Starts cs) : replaceCredentials cs 0 =
    redactedMarker ++ replaceCredentials (cs.dropWhile credentialChar) 0 := by
  have hl := credentialLength_starts h
  obtain ⟨start, hst, -, hlt⟩ := starts_iff.mp h
  cases cs with
  | nil => exact absurd rfl h.ne_nil
  | cons cp cs =>
    rw [replaceCredentials, hl]
    simp only
    rw [replaceCredentials_skip, ← drop_runLength, ← drop_succ_cons (a := cp),
      Nat.sub_add_cancel (by omega)]

theorem replaceCredentials_cons (h : ¬ Starts (cp :: cs)) :
    replaceCredentials (cp :: cs) 0 = cp :: replaceCredentials cs 0 := by
  rw [replaceCredentials, credentialLength_none h]

/-- Credential characters at the start of a redacted text were there before. -/
theorem replaceCredentials_word (hwd : ∀ cp ∈ w, credentialChar cp = true)
    (h : w <+: replaceCredentials cs 0) :
    w <+: cs ∧
      replaceCredentials cs 0 = w ++ replaceCredentials (cs.drop w.length) 0 := by
  induction w generalizing cs with
  | nil => simp
  | cons cp w ih =>
    by_cases hs : Starts cs
    · rw [replaceCredentials_starts hs, marker_split] at h
      obtain ⟨rfl, -⟩ := cons_prefix_cons.mp h
      exact absurd (hwd 0x5b mem_cons_self) (by decide)
    · cases cs with
      | nil => simp [replaceCredentials] at h
      | cons first cs =>
        rw [replaceCredentials_cons hs] at h ⊢
        obtain ⟨rfl, hr⟩ := cons_prefix_cons.mp h
        obtain ⟨hb, heq⟩ := ih (fun c hc => hwd c (mem_cons_of_mem _ hc)) hr
        exact ⟨cons_prefix_cons.mpr ⟨rfl, hb⟩, congrArg (cp :: ·) heq⟩

end Replace

/-! ## No credential is left -/

/-- A word of credential characters does not reach over another character. -/
theorem infix_split {word pre : List ℕ} {sep : ℕ} (hwd : ∀ cp ∈ word, credentialChar cp = true)
    (hs : credentialChar sep = false) (h : word <:+: pre ++ sep :: behind) :
    word <:+: pre ∨ word <:+: behind := by
  have hn : sep ∉ word := fun hm => by
    rw [hwd sep hm] at hs
    exact Bool.noConfusion hs
  obtain ⟨x, y, h⟩ := h
  rcases append_eq_append_iff.mp h with ⟨c, hb, -⟩ | ⟨c, hwd', hh⟩
  · exact .inl ⟨x, c, hb.symm⟩
  cases c with
  | nil => exact .inl ⟨x, [], by simpa using hwd'⟩
  | cons first c =>
    obtain ⟨rfl, rfl⟩ := cons_eq_cons.mp hh
    rcases append_eq_append_iff.mp hwd' with ⟨d, -, rfl⟩ | ⟨d, -, hd⟩
    · exact absurd (mem_append_right d mem_cons_self) hn
    cases d with
    | nil =>
      rw [nil_append] at hd
      exact absurd (hd ▸ mem_cons_self) hn
    | cons first d =>
      obtain ⟨rfl, rfl⟩ := cons_eq_cons.mp hd
      exact .inr ⟨d, y, rfl⟩

theorem word_chars {start : List ℕ} (hst : start ∈ credentialPrefixes)
    (hcd : credentialChar cp = true) : ∀ c ∈ start ++ [cp], credentialChar c = true := by
  intro c hc
  rcases mem_append.mp hc with hc | hc
  · exact prefix_chars start hst c hc
  · rwa [mem_singleton.mp hc]

theorem CredentialFree.join {pre : List ℕ} (sep : ℕ) (hs : credentialChar sep = false)
    (hb : CredentialFree pre) (hh : CredentialFree behind) :
    CredentialFree (pre ++ sep :: behind) := by
  intro start hst cp hcd hw
  rcases infix_split (word_chars hst hcd) hs hw with h | h
  · exact hb start hst cp hcd h
  · exact hh start hst cp hcd h

theorem credentialFree_nil : CredentialFree [] := by
  intro start _ cp _ h
  simp at h

theorem credentialFree_word : CredentialFree (literal "redacted") := by
  have hn : ∀ start ∈ credentialPrefixes, ∀ c ∈ start.head?, c ∉ literal "redacted" := by decide
  intro start hst cp _ hw
  cases hs : start with
  | nil => exact prefix_ne_nil start hst hs
  | cons first rest =>
    refine hn start hst first (by simp [hs]) (hw.subset ?_)
    simp [hs]

theorem CredentialFree.marker (h : CredentialFree cs) : CredentialFree (redactedMarker ++ cs) := by
  have hwd := CredentialFree.join 0x5d rfl credentialFree_word h
  have hmk := CredentialFree.join 0x5b rfl credentialFree_nil hwd
  rw [marker_split]
  simpa using hmk

theorem CredentialFree.suffix {text' : List ℕ} (h : CredentialFree cs) (hs : text' <:+ cs) :
    CredentialFree text' :=
  fun start hst cp hcd hw =>
    h start hst cp hcd (hw.trans hs.isInfix)

/-- What is replaced holds no credential. -/
theorem credentialFree_replace (cs : List ℕ) : CredentialFree (replaceCredentials cs 0) := by
  induction hl : cs.length using Nat.strong_induction_on generalizing cs with
  | _ length ih =>
    by_cases hs : Starts cs
    · rw [replaceCredentials_starts hs]
      refine CredentialFree.marker (ih _ ?_ _ rfl)
      obtain ⟨start, -, -, hlt⟩ := starts_iff.mp hs
      have hne := length_pos_of_ne_nil hs.ne_nil
      rw [← drop_runLength, length_drop]
      omega
    · cases cs with
      | nil => exact credentialFree_nil
      | cons first cs =>
        rw [replaceCredentials_cons hs]
        intro start hst code hcd hw
        rcases infix_cons_iff.mp hw with hb | hw
        · rw [← replaceCredentials_cons hs] at hb
          exact hs ⟨start, hst, code, hcd, (replaceCredentials_word (word_chars hst hcd) hb).1⟩
        · exact ih _ (by simp [← hl]) cs rfl start hst code hcd hw

/-! ## The leading prefix -/

theorem neutralize_marker (cs : List ℕ) (guard : ℕ) :
    neutralizeLeadingPrefixes (redactedMarker ++ cs) guard = redactedMarker ++ cs := by
  have hh : ∀ start ∈ credentialPrefixes, start.head? ≠ some 0x5b := by decide
  cases guard with
  | zero => rfl
  | succ guard =>
    have hno : credentialPrefixes.find? (fun start => start.isPrefixOf (redactedMarker ++ cs)) =
        none := by
      refine find?_eq_none.mpr fun start hst hb => ?_
      obtain ⟨rest, hr⟩ := isPrefixOf_iff_prefix.mp hb
      cases hs : start with
      | nil => exact prefix_ne_nil start hst hs
      | cons first start' =>
        rw [hs, marker_split] at hr
        obtain ⟨rfl, -⟩ := cons_eq_cons.mp hr
        exact hh start hst (by simp [hs])
    rw [neutralizeLeadingPrefixes, hno]

/-- At most one prefix is peeled: what is left then starts with the marker. -/
theorem redact_cases (cs : List ℕ) :
    redactCredentialSubstrings cs = replaceCredentials cs 0 ∨
      ∃ start ∈ credentialPrefixes, start <+: replaceCredentials cs 0 ∧
        redactCredentialSubstrings cs =
          redactedMarker ++ (replaceCredentials cs 0).drop start.length := by
  unfold redactCredentialSubstrings
  generalize replaceCredentials cs 0 = replaced
  have hg : credentialPrefixes.length = 4 + 1 := rfl
  rw [hg, neutralizeLeadingPrefixes]
  cases hfn : credentialPrefixes.find? fun start => start.isPrefixOf replaced with
  | none => exact .inl rfl
  | some start =>
    refine .inr ⟨start, mem_of_find?_eq_some hfn, ?_, neutralize_marker _ _⟩
    have hb : start.isPrefixOf replaced = true :=
      find?_some (p := fun start : List ℕ => start.isPrefixOf replaced) hfn
    exact isPrefixOf_iff_prefix.mp hb

/-- **Redaction leaves no prefix with a credential character after it.** -/
theorem credentialFree_redact (cs : List ℕ) :
    CredentialFree (redactCredentialSubstrings cs) := by
  rcases redact_cases cs with h | ⟨start, -, -, h⟩
  · rw [h]
    exact credentialFree_replace cs
  · rw [h]
    exact ((credentialFree_replace cs).suffix (drop_suffix _ _)).marker

/-! ## Where the characters of a redacted text come from -/

/-- `text` shows the positions `i` to `j` of `clean`: a character that is in no credential's
body, or a marker where a prefix starts, which hides no more than the run. -/
inductive Shown (clean : List ℕ) : ℕ → ℕ → List ℕ → Prop
  | done (i : ℕ) : Shown clean i i []
  | char {i j code : ℕ} {text : List ℕ} : clean[i]? = some code → ¬ InBody clean i →
      Shown clean (i + 1) j text → Shown clean i j (code :: text)
  | marker {i k j : ℕ} {text : List ℕ} : (∃ start ∈ credentialPrefixes, start <+: clean.drop i) →
      i ≤ k → k ≤ i + runLength (clean.drop i) → Shown clean k j text →
      Shown clean i j (redactedMarker ++ text)

/-- No body that starts before `i` reaches into `i` to `n`. -/
def Clear (clean : List ℕ) (n i : ℕ) : Prop :=
  ∀ j, j < i → ∀ start ∈ credentialPrefixes, start <+: clean.drop j →
    ∀ k, i ≤ k → k < n → j + start.length ≤ k → j + runLength (clean.drop j) ≤ k

section Stretch
variable {cl : List ℕ} {n i : ℕ}

theorem Clear.start : Clear cl n 0 := fun j hj => absurd hj (Nat.not_lt_zero j)

theorem prefix_of_take (h : w <+: (cl.take n).drop i) : w <+: cl.drop i := by
  rw [drop_take] at h
  exact h.trans <| take_prefix _ _

/-- The end of a run is clear, whatever started before it. -/
theorem Clear.run (i : ℕ) : Clear cl n (i + runLength (cl.drop i)) :=
  fun _ hj _ _ _ _ hk _ _ => (run_le hj.le).trans hk

theorem Clear.not_inBody (hc : Clear cl n i) (hi : i < n) : ¬ InBody cl i := by
  rintro ⟨j, start, hst, hb, hle, hlt⟩
  have hp := length_pos_of_ne_nil (prefix_ne_nil start hst)
  have := hc j (by omega) start hst hb i (le_refl i) hi hle
  omega

theorem runLength_stretch : runLength ((cl.take n).drop i) =
    min (n - i) (runLength (cl.drop i)) := by
  rw [drop_take, runLength_take]

/-- Passing a character that starts no credential. -/
theorem Clear.next (hc : Clear cl n i) (h : ¬ Starts ((cl.take n).drop i)) :
    Clear cl n (i + 1) := by
  intro j hj start hst hb k hk hkn hbo
  rcases Nat.lt_succ_iff_lt_or_eq.mp hj with hlt | rfl
  · exact hc j hlt start hst hb k (by omega) hkn hbo
  by_contra hps
  refine h (starts_iff.mpr ⟨start, hst, ?_, ?_⟩)
  · rw [drop_take]
    exact prefix_take_iff.mpr ⟨hb, by omega⟩
  · rw [runLength_stretch]
    omega

/-- **A redacted stretch shows its positions.** -/
theorem shown_replace (hi : i ≤ n) (hn : n ≤ cl.length) (hc : Clear cl n i) :
    Shown cl i n (replaceCredentials ((cl.take n).drop i) 0) := by
  induction hl : n - i using Nat.strong_induction_on generalizing i with
  | _ length ih =>
    by_cases hs : Starts ((cl.take n).drop i)
    · obtain ⟨start, hst, hb, hlt⟩ := starts_iff.mp hs
      rw [replaceCredentials_starts hs, ← drop_runLength, drop_drop, runLength_stretch]
      rw [runLength_stretch] at hlt
      refine .marker ⟨start, hst, prefix_of_take hb⟩ (Nat.le_add_right _ _) (by omega)
        (ih _ (by omega) (by omega) ?_ rfl)
      rcases le_total (n - i) (runLength (cl.drop i)) with ht | hw
      · -- the run goes on past the stretch: nothing is left to show
        intro j _ _ _ _ k hk hkn
        omega
      · rw [min_eq_right hw]
        exact Clear.run i
    · rcases eq_or_lt_of_le hi with rfl | hlt
      · rw [drop_take, Nat.sub_self, take_zero]
        exact .done i
      · have hcd : (cl.take n).drop i = cl[i] :: (cl.take n).drop (i + 1) := by
          rw [drop_eq_getElem_cons (by simp; omega), getElem_take]
        rw [hcd] at hs ⊢
        rw [replaceCredentials_cons hs]
        refine .char (getElem?_eq_getElem _) (hc.not_inBody hlt)
          (ih _ (by omega) (by omega) ?_ rfl)
        exact hc.next (hcd ▸ hs)

/-- What is shown of a part of the text. -/
theorem shown_redact (hi : i ≤ n) (hn : n ≤ cl.length) (hc : Clear cl n i) :
    Shown cl i n (redactCredentialSubstrings ((cl.take n).drop i)) := by
  rcases redact_cases ((cl.take n).drop i) with h | ⟨start, hst, hb, h⟩
  · rw [h]
    exact shown_replace hi hn hc
  obtain ⟨ht, hp⟩ := replaceCredentials_word (prefix_chars start hst) hb
  have hno : ¬ Starts ((cl.take n).drop i) := fun hss => by
    rw [replaceCredentials_starts hss, marker_split] at hb
    cases hs : start with
    | nil => exact prefix_ne_nil start hst hs
    | cons first rest =>
      rw [hs] at hb
      obtain ⟨rfl, -⟩ := cons_prefix_cons.mp hb
      exact absurd (prefix_chars start hst 0x5b (by simp [hs])) (by decide)
  -- no credential character follows: the prefix is the whole run
  have hr : runLength ((cl.take n).drop i) = start.length := by
    have hge : start.length ≤ runLength ((cl.take n).drop i) := by
      rw [← match_length hst ht]
      omega
    have hle : ¬ start.length < runLength ((cl.take n).drop i) :=
      fun hlt => hno (starts_iff.mpr ⟨start, hst, ht, hlt⟩)
    omega
  have hft : i + start.length ≤ n := by
    have := ht.length_le
    simp at this
    omega
  rw [runLength_stretch] at hr
  rw [h, hp, drop_left, drop_drop]
  refine .marker ⟨start, hst, prefix_of_take ht⟩ (Nat.le_add_right _ _) (by omega)
    (shown_replace hft hn ?_)
  rcases le_total (n - i) (runLength (cl.drop i)) with hcu | hw
  · intro j _ _ _ _ k hk hkn
    omega
  · rw [← hr, min_eq_right hw]
    exact Clear.run i

end Stretch

end ModelProxy.CommandOutput
