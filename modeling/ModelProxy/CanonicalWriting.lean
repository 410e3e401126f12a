import ModelProxy.CanonicalJson
import ModelProxy.HostValues

/-! # What the server's canonical text was written from

Texts as units, the induction over values, and the inversion of the writer: a text that was
written is the text of a leaf, or the written texts of the items or members between
brackets.  Paths only name the place of an error, so `Wrote` forgets them.
-/
namespace ModelProxy.CanonicalJson
open ModelProxy.Finite List Comparator

open CommandOutput (literal textUnits textUnits_append textUnits_cons unitsOf isHighSurrogate
  isLowSurrogate)

/-! ## Texts -/

variable {β : Type} {xs : List JsValue} {es : List (List ℕ × JsValue)} {path : List ℕ} {x : Finite}

section Texts

variable {unit : ℕ}

theorem isHighSurrogate_iff : isHighSurrogate unit = true ↔ 0xd800 ≤ unit ∧ unit ≤ 0xdbff := by
  simp [isHighSurrogate]

theorem isLowSurrogate_iff : isLowSurrogate unit = true ↔ 0xdc00 ≤ unit ∧ unit ≤ 0xdfff := by
  simp [isLowSurrogate]

theorem escapeUnit_self (hc : 0x20 ≤ unit) (hq : unit ≠ 0x22) (hs : unit ≠ 0x5c) :
    escapeUnit unit = [unit] := by
  unfold escapeUnit
  repeat rw [if_neg (by omega)]

/-- The units of a character: itself, or a high and a low surrogate. -/
theorem unitsOf_cases (c : Char) :
    unitsOf c.toNat = [c.toNat] ∧ isHighSurrogate c.toNat = false ∧ isLowSurrogate c.toNat = false ∨
      ∃ high low, unitsOf c.toNat = [high, low] ∧ isHighSurrogate high = true ∧
        isLowSurrogate low = true ∧
        c.toNat = 0x10000 + (high - 0xd800) * 1024 + (low - 0xdc00) := by
  have hvd : c.toNat.isValidChar := c.valid
  unfold unitsOf
  split
  next hlt =>
    refine .inl ⟨rfl, ?_, ?_⟩
    · rw [← Bool.not_eq_true, isHighSurrogate_iff]
      rcases hvd with h | h <;> omega
    · rw [← Bool.not_eq_true, isLowSurrogate_iff]
      rcases hvd with h | h <;> omega
  next hge =>
    refine .inr ⟨_, _, rfl, isHighSurrogate_iff.mpr ?_, isLowSurrogate_iff.mpr ?_, ?_⟩ <;>
      rcases hvd with h | h <;> omega

theorem not_low_of_high (h : isHighSurrogate unit = true) : isLowSurrogate unit = false := by
  rw [← Bool.not_eq_true, isLowSurrogate_iff]
  rw [isHighSurrogate_iff] at h
  omega

theorem codePoints_textUnits (text : List Char) :
    codePoints (textUnits text) = text.map Char.toNat := by
  induction text with
  | nil => rfl
  | cons c text ih =>
    rw [textUnits_cons, map_cons, ← ih]
    rcases unitsOf_cases c with ⟨hu, hhi, -⟩ | ⟨high, low, hu, hhi, hl, hcd⟩
    · rw [hu]
      cases textUnits text with
      | nil => rfl
      | cons next us => simp [codePoints, hhi]
    · rw [hu, hcd]
      simp [codePoints, hhi, hl]

theorem textUnits_injective : Function.Injective textUnits := fun a b h => by
  have hc := congrArg codePoints h
  rw [codePoints_textUnits, codePoints_textUnits] at hc
  exact map_injective_iff.mpr (fun _ _ h => Char.toNat_inj.mp h) hc

theorem loneSurrogate_textUnits (text : List Char) :
    loneSurrogate (textUnits text) false = false := by
  induction text with
  | nil => rfl
  | cons c text ih =>
    rw [textUnits_cons]
    rcases unitsOf_cases c with ⟨hu, hhi, hl⟩ | ⟨high, low, hu, hhi, hl, -⟩
    · rw [hu]
      simp [loneSurrogate, hhi, hl, ih]
    · rw [hu]
      simp [loneSurrogate, hhi, hl, not_low_of_high hhi, ih]

theorem exists_char {code : ℕ} (h : code.isValidChar) : ∃ c : Char, c.toNat = code :=
  ⟨Char.ofNatAux code h, rfl⟩

/-- Units without a lone surrogate are a text. -/
theorem exists_text {us : List ℕ} (ht : ∀ unit ∈ us, unit < 2 ^ 16)
    (h : loneSurrogate us false = false) : ∃ text, us = textUnits text := by
  induction hn : us.length using Nat.strong_induction_on generalizing us with
  | _ length ih =>
    cases us with
    | nil => exact ⟨[], rfl⟩
    | cons unit us =>
      have hun := ht unit mem_cons_self
      have hr : ∀ u ∈ us, u < 2 ^ 16 := fun u hu => ht u (mem_cons_of_mem _ hu)
      rw [loneSurrogate] at h
      by_cases hl : isLowSurrogate unit = true
      · simp [hl] at h
      rw [if_neg hl, Bool.false_or] at h
      rw [isLowSurrogate_iff] at hl
      by_cases hhi : isHighSurrogate unit = true
      · -- the low half follows
        rw [hhi] at h
        rw [isHighSurrogate_iff] at hhi
        cases us with
        | nil => exact absurd h (by simp [loneSurrogate])
        | cons next us =>
          rw [loneSurrogate] at h
          by_cases hnx : isLowSurrogate next = true
          · rw [if_pos hnx, if_pos rfl] at h
            rw [isLowSurrogate_iff] at hnx
            have hs : us.length < length := by
              simp only [← hn, length_cons]
              omega
            obtain ⟨text, htx⟩ := ih us.length hs
              (fun u hu => hr u (mem_cons_of_mem _ hu)) h rfl
            have hvd : (0x10000 + (unit - 0xd800) * 1024 + (next - 0xdc00)).isValidChar :=
              .inr (by omega)
            obtain ⟨c, hc⟩ := exists_char hvd
            refine ⟨c :: text, ?_⟩
            rw [textUnits_cons, hc, unitsOf, if_neg (by omega), ← htx]
            simp only [cons_append, nil_append, cons.injEq, and_true]
            omega
          · simp [hnx] at h
      · rw [Bool.not_eq_true] at hhi
        rw [hhi] at h
        obtain ⟨text, htx⟩ := ih us.length (by simp [← hn]) hr h rfl
        rw [← Bool.not_eq_true, isHighSurrogate_iff] at hhi
        have hvd : unit.isValidChar := by
          rcases lt_or_ge unit 0xd800 with hlt | hge
          · exact .inl hlt
          · exact .inr (by omega)
        obtain ⟨c, hc⟩ := exists_char hvd
        refine ⟨c :: text, ?_⟩
        have ho : unit < 0x10000 := hun
        rw [textUnits_cons, hc, unitsOf, if_pos ho, ← htx]
        rfl

theorem codePointOrder_units (a b : List Char) : compareCodePoints (textUnits a) (textUnits b) =
    (byNumber id).lex.cmp (a.map Char.toNat) (b.map Char.toNat) := by
  rw [← codePoints_textUnits, ← codePoints_textUnits]
  rfl

theorem compareCodePoints_zero (a b : List Char) :
    compareCodePoints (textUnits a) (textUnits b) = 0 ↔ a = b := by
  rw [codePointOrder_units, lex_eq_zero Function.injective_id]
  exact (map_injective_iff.mpr fun _ _ h => Char.toNat_inj.mp h).eq_iff

/-- Distinct keys sort into one list, however they are enumerated. -/
theorem sortKeys_perm {l l' : List (List ℕ × β)} (hpm : l.Perm l') (hky : (l.map Prod.fst).Nodup)
    (ht : ∀ e ∈ l, ∃ key, e.1 = textUnits key) :
    (codePointOrder.comap Prod.fst).sort l = (codePointOrder.comap Prod.fst).sort l' := by
  refine sort_eq_of_perm _ hpm fun a ha b hb hab hba => ?_
  obtain ⟨key, hk⟩ := ht a ha
  obtain ⟨key', hk'⟩ := ht b hb
  have hz : compareCodePoints a.1 b.1 = 0 :=
    le_antisymm hab ((codePointOrder.swap b.1 a.1).mp hba)
  rw [hk, hk', compareCodePoints_zero] at hz
  exact inj_on_of_nodup_map hky ha hb (by rw [hk, hk', hz])

end Texts

/-! ## Values -/

/-- Induction over values: an array by its items, an object by its members. -/
theorem JsValue.induct {P : JsValue → Prop} (null : P .null) (bool : ∀ flag, P (.bool flag))
    (number : ∀ x, P (.number x)) (string : ∀ us, P (.string us))
    (array : ∀ xs, (∀ item ∈ xs, P item) → P (.array xs))
    (object : ∀ es, (∀ e ∈ es, P e.2) → P (.object es))
    (undefined : P .undefined) (instanceObject : P .instanceObject)
    (unsupported : ∀ typeName, P (.unsupported typeName)) (v : JsValue) : P v :=
  @JsValue.rec P (fun xs => ∀ item ∈ xs, P item) (fun es => ∀ e ∈ es, P e.2)
    (fun e => P e.2) null bool number string array object undefined instanceObject
    unsupported (fun _ h => absurd h not_mem_nil)
    (fun _ _ hi hie => forall_mem_cons.mpr ⟨hi, hie⟩)
    (fun _ h => absurd h not_mem_nil)
    (fun _ _ he hes => forall_mem_cons.mpr ⟨he, hes⟩)
    (fun _ _ hmb => hmb) v

/-- The members that are written. -/
def present (entries : List (List ℕ × JsValue)) : List (List ℕ × JsValue) :=
  entries.filter fun entry => match entry.2 with
    | .undefined => false
    | _ => true

mutual

/-- Texts are 16-bit units, and an object has no key twice. -/
def JsValue.Proper : JsValue → Prop
  | .string units => ∀ unit ∈ units, unit < 2 ^ 16
  | .array items => properItems items
  | .object entries => (entries.map Prod.fst).Nodup ∧ properEntries entries
  | _ => True

/-- Every item is proper. -/
def properItems : List JsValue → Prop
  | [] => True
  | item :: items => item.Proper ∧ properItems items

/-- Every member is proper. -/
def properEntries : List (List ℕ × JsValue) → Prop
  | [] => True
  | (key, member) :: entries =>
    (∀ unit ∈ key, unit < 2 ^ 16) ∧ member.Proper ∧ properEntries entries

end

theorem properItems_iff : properItems xs ↔ ∀ item ∈ xs, item.Proper := by
  induction xs with
  | nil => simp [properItems]
  | cons item xs ih => rw [properItems, ih, forall_mem_cons]

theorem properEntries_iff : properEntries es ↔
    ∀ e ∈ es, (∀ unit ∈ e.1, unit < 2 ^ 16) ∧ e.2.Proper := by
  induction es with
  | nil => simp [properEntries]
  | cons e es ih =>
    rw [properEntries, ih, forall_mem_cons, and_assoc]

/-! ## What was written -/

section
variable {shortest : Finite → List Char}

theorem writeItems_cons {item : JsValue} (h : item ≠ .undefined) (xs : List JsValue)
    (path : List ℕ) (i : ℕ) : writeItems shortest (item :: xs) path i =
      write shortest item
          (path ++ literal "[" ++ textUnits (Nat.toDigits 10 i) ++ literal "]") ::
        writeItems shortest xs path (i + 1) := by
  rw [writeItems]
  exact h

theorem writeEntries_eq (es : List (List ℕ × JsValue)) (path : List ℕ) :
    writeEntries shortest es path =
      (present es).map fun e => (e.1, write shortest e.2 (path ++ literal "." ++ e.1)) := by
  induction es with
  | nil => rw [writeEntries]; rfl
  | cons e es ih =>
    obtain ⟨key, member⟩ := e
    cases member <;> simp [writeEntries, present, ih]

/-- Texts with commas between them. -/
def joined {α : Type} (comma : α) : List (List α) → List α
  | [] => []
  | text :: texts => text ++ texts.flatMap fun text => comma :: text

/-- A joined text has its parts. -/
theorem separated_ok {ε α : Type} {comma : α} {pieces : List (Except ε (List α))} {text : List α}
    (h : separated comma pieces = .ok text) :
    ∃ texts, pieces = texts.map .ok ∧ text = joined comma texts := by
  induction pieces generalizing text with
  | nil => exact ⟨[], rfl, (Except.ok.inj h).symm⟩
  | cons piece pieces ih =>
    cases pieces with
    | nil =>
      refine ⟨[text], ?_, (append_nil text).symm⟩
      rw [separated] at h
      rw [h]
      rfl
    | cons next pieces =>
      obtain ⟨first, rfl, hr⟩ := bind_eq_ok.mp h
      obtain ⟨rest, hr, htx⟩ := bind_eq_ok.mp hr
      obtain ⟨texts, hp, rfl⟩ := ih hr
      refine ⟨first :: texts, by rw [hp]; rfl, (Except.ok.inj htx).symm.trans ?_⟩
      cases texts with
      | nil => exact absurd hp (by simp)
      | cons second texts => rfl

variable {text : List ℕ}

theorem writeMember_ok {e : List ℕ × Except CanonicalJsonError (List ℕ)}
    (h : writeMember path e = .ok text) :
    loneSurrogate e.1 false = false ∧ ∃ written, e.2 = .ok written ∧
      text = stringify e.1 ++ literal ":" ++ written := by
  unfold writeMember at h
  cases hle : loneSurrogate e.1 false with
  | true => simp [hle, bind, Except.bind, throw, throwThe, MonadExceptOf.throw] at h
  | false =>
    simp only [hle, Bool.false_eq_true, if_false] at h
    obtain ⟨written, hwr, h⟩ := bind_eq_ok.mp h
    exact ⟨rfl, written, hwr, (Except.ok.inj h).symm⟩

/-- The server writes an integer it holds exactly by its digits. -/
theorem canonicalNumber_integer (path : List ℕ) (hi : x.isInteger = true) :
    canonicalNumber shortest (.finite x) path =
      if x.magnitude ≤ maxSafeInteger then
        .ok (textUnits (decimal (x.negative && decide (x.magnitude ≠ 0)) x.magnitude.num))
      else .error ⟨"Unsafe integer", path⟩ := by
  unfold canonicalNumber isSafeInteger
  simp only [hi, if_true, Bool.true_and]
  by_cases hsa : x.magnitude ≤ maxSafeInteger
  · simp only [hsa, decide_true, Bool.not_true, Bool.false_eq_true, if_false, if_true, toText, hi]
    split
    next hz =>
      -- minus zero
      rw [Bool.and_eq_true, decide_eq_true_eq] at hz
      rw [hz.2]
      simp
      rfl
    next => rfl
  · simp [hsa]

/-- A double that is no integer is written if it is in range. -/
theorem canonicalNumber_fraction (path : List ℕ) (hint : x.isInteger = false) :
    canonicalNumber shortest (.finite x) path =
      if lowest ≤ x.magnitude ∧ x.magnitude < highest then
        .ok (textUnits (shortest x))
      else .error ⟨"Number outside the canonical range", path⟩ := by
  simp only [canonicalNumber, hint, Bool.false_eq_true, if_false, toText]
  by_cases hran : lowest ≤ x.magnitude ∧ x.magnitude < highest
  · rw [if_pos hran, if_neg (by rw [not_or, not_lt, not_le]; exact hran)]
  · rw [if_neg hran, if_pos (by rwa [not_and_or, not_le, not_lt] at hran)]

variable (shortest) in
/-- The value is accepted, and this is its text. -/
def Wrote (v : JsValue) (text : List ℕ) : Prop := ∃ path, write shortest v path = .ok text

variable (shortest) in
/-- A member's text: its key, a colon and its value's text. -/
structure WroteMember (entry : List ℕ × JsValue) (text : List ℕ) : Prop where
  key : loneSurrogate entry.1 false = false
  value : ∃ written, Wrote shortest entry.2 written ∧ text = stringify entry.1 ++ 0x3a :: written

/-- The members in the order in which they are written. -/
def members (entries : List (List ℕ × JsValue)) : List (List ℕ × JsValue) :=
  (codePointOrder.comap Prod.fst).sort (present entries)

theorem members_perm (es : List (List ℕ × JsValue)) :
    (members es).Perm (present es) := sort_perm _ _

theorem mem_of_mem_present {entries : List (List ℕ × JsValue)} {e : List ℕ × JsValue}
    (h : e ∈ present entries) : e ∈ entries := mem_of_mem_filter h

theorem exists_right {α : Type} {R : α → β → Prop} {as : List α} {bs : List β}
    (h : List.Forall₂ R as bs) {a : α} (ha : a ∈ as) : ∃ b, R a b := by
  induction h with
  | nil => exact absurd ha not_mem_nil
  | cons hab _ ih =>
    rcases mem_cons.mp ha with rfl | ha
    · exact ⟨_, hab⟩
    · exact ih ha

theorem writeItems_ok {i : ℕ} {texts : List (List ℕ)}
    (h : writeItems shortest xs path i = texts.map .ok) :
    List.Forall₂ (Wrote shortest) xs texts := by
  induction xs generalizing i texts with
  | nil =>
    rw [map_eq_nil_iff.mp h.symm]
    exact .nil
  | cons item xs ih =>
    by_cases hd : item = .undefined
    · subst hd
      rw [writeItems] at h
      cases texts with
      | nil => exact absurd h (by simp)
      | cons text texts => exact absurd (cons_eq_cons.mp h).1 (by simp)
    · rw [writeItems_cons hd] at h
      cases texts with
      | nil => exact absurd h (by simp)
      | cons text texts =>
        obtain ⟨hi, hie⟩ := cons_eq_cons.mp h
        exact .cons ⟨_, hi⟩ (ih hie)

theorem wrote_array (h : Wrote shortest (.array xs) text) :
    ∃ ts, List.Forall₂ (Wrote shortest) xs ts ∧
      text = 0x5b :: (joined 0x2c ts ++ [0x5d]) := by
  obtain ⟨path, h⟩ := h
  obtain ⟨inner, hi, htx⟩ := bind_eq_ok.mp h
  obtain ⟨ts, hp, rfl⟩ := separated_ok hi
  exact ⟨ts, writeItems_ok hp, (Except.ok.inj htx).symm⟩

/-- The text of an object is its members' texts between braces. -/
theorem wrote_object (h : Wrote shortest (.object es) text) :
    ∃ texts, List.Forall₂ (WroteMember shortest) (members es) texts ∧
      text = 0x7b :: (joined 0x2c texts ++ [0x7d]) := by
  obtain ⟨path, h⟩ := h
  obtain ⟨inner, hi, htx⟩ := bind_eq_ok.mp h
  obtain ⟨texts, hp, rfl⟩ := separated_ok hi
  refine ⟨texts, ?_, (Except.ok.inj htx).symm⟩
  have hs := sort_map (codePointOrder.comap Prod.fst) (codePointOrder.comap Prod.fst)
    (f := fun e => (e.1, write shortest e.2 (path ++ literal "." ++ e.1)))
    (fun _ _ => Iff.rfl) (present es)
  rw [writeEntries_eq, hs, map_map] at hp
  have hpa : List.Forall₂ (fun e text => writeMember path
      (e.1, write shortest e.2 (path ++ literal "." ++ e.1)) = .ok text)
      (members es) texts := by
    have heq : List.Forall₂ Eq ((members es).map fun e => writeMember path
        (e.1, write shortest e.2 (path ++ literal "." ++ e.1))) (texts.map .ok) := by
      rw [forall₂_eq_eq_eq]
      exact hp
    rwa [forall₂_map_left_iff, forall₂_map_right_iff] at heq
  refine hpa.imp fun e text he => ?_
  obtain ⟨hle, written, hwr, rfl⟩ := writeMember_ok he
  exact ⟨hle, written, ⟨_, hwr⟩, by simp [literal, textUnits, unitsOf]⟩

end

end ModelProxy.CanonicalJson
