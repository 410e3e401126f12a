import Mathlib.Tactic.IntervalCases
import ModelProxy.CanonicalWriting

/-! # Canonical text can be read in one way only

A text that starts with the text of a value, followed by nothing or by a comma or a closing
bracket, starts with the text of no other value.  Its first character tells the kind; a
string ends at its first quote that is not escaped, a number at the first character that is
none of a number; items and members are read one after another.
-/
namespace ModelProxy.CanonicalJson
open ModelProxy.Finite List

open CommandOutput (literal textUnits)

/-! ## One value up to what the text forgets -/

/-- One number, up to the sign of zero. -/
def SameNumber : Double → Double → Prop
  | .finite x, .finite y => x = y ∨ x.magnitude = 0 ∧ y.magnitude = 0
  | x, y => x = y

mutual

/-- One value, up to the order of keys, members that are `undefined` and the sign of zero. -/
inductive Same : JsValue → JsValue → Prop
  | null : Same .null .null
  | bool (flag : Bool) : Same (.bool flag) (.bool flag)
  | number {x y : Double} : SameNumber x y → Same (.number x) (.number y)
  | string (units : List ℕ) : Same (.string units) (.string units)
  | array {items items' : List JsValue} : SameItems items items' →
      Same (.array items) (.array items')
  | object {entries entries' members members' : List (List ℕ × JsValue)} :
      (present entries).Perm members → (present entries').Perm members' →
      SameMembers members members' → Same (.object entries) (.object entries')

/-- The items are the same one by one. -/
inductive SameItems : List JsValue → List JsValue → Prop
  | nil : SameItems [] []
  | cons {item item' : JsValue} {items items' : List JsValue} : Same item item' →
      SameItems items items' → SameItems (item :: items) (item' :: items')

/-- The members are the same one by one. -/
inductive SameMembers : List (List ℕ × JsValue) → List (List ℕ × JsValue) → Prop
  | nil : SameMembers [] []
  | cons {key : List ℕ} {member member' : JsValue} {members members' : List (List ℕ × JsValue)} :
      Same member member' → SameMembers members members' →
      SameMembers ((key, member) :: members) ((key, member') :: members')

end

theorem sameItems_iff {xs items' : List JsValue} :
    SameItems xs items' ↔ List.Forall₂ Same xs items' := by
  constructor
  · intro h
    induction xs generalizing items' with
    | nil => cases h; exact .nil
    | cons item xs ih =>
      cases h with
      | cons hi hie => exact .cons hi (ih hie)
  · intro h
    induction h with
    | nil => exact .nil
    | cons hi _ ih => exact .cons hi ih

/-- One key, and values that are the same. -/
structure SameMember (entry entry' : List ℕ × JsValue) : Prop where
  key : entry.1 = entry'.1
  value : Same entry.2 entry'.2

theorem sameMembers_iff {mems members' : List (List ℕ × JsValue)} :
    SameMembers mems members' ↔ List.Forall₂ SameMember mems members' := by
  constructor
  · intro h
    induction mems generalizing members' with
    | nil => cases h; exact .nil
    | cons e mems ih =>
      cases h with
      | cons hmb hm => exact .cons ⟨rfl, hmb⟩ (ih hm)
  · intro h
    induction h with
    | nil => exact .nil
    | @cons e e' mems members' he _ ih =>
      obtain ⟨key', member'⟩ := e'
      obtain ⟨rfl, hv⟩ := he
      exact .cons hv ih

/-! ## Strings -/

/-- The unit an escape stands for, and what follows it; nothing at the closing quote. -/
def readUnit : List ℕ → Option (ℕ × List ℕ)
  | [] => none
  | 0x5c :: 0x75 :: _ :: _ :: high :: low :: rest =>
    let digit := fun d => if d < 0x61 then d - 0x30 else d - 0x57
    some (digit high * 16 + digit low, rest)
  | 0x5c :: letter :: rest =>
    some (if letter = 0x62 then 0x08 else if letter = 0x74 then 0x09
      else if letter = 0x6e then 0x0a else if letter = 0x66 then 0x0c
      else if letter = 0x72 then 0x0d else letter, rest)
  | unit :: rest => if unit = 0x22 then none else some (unit, rest)

/-- What is escaped reads back. -/
theorem readUnit_escape (u : ℕ) (rest : List ℕ) :
    readUnit (escapeUnit u ++ rest) = some (u, rest) := by
  by_cases hc : u < 0x20
  · interval_cases u <;> rfl
  by_cases hq : u = 0x22
  · rw [hq]; rfl
  by_cases hs : u = 0x5c
  · rw [hs]; rfl
  rw [escapeUnit_self (by omega) hq hs, singleton_append]
  unfold readUnit
  split
  next h => exact absurd h (by simp)
  next h => exact absurd (cons_eq_cons.mp h).1 hs
  next h => exact absurd (cons_eq_cons.mp h).1 hs
  next h =>
    obtain ⟨rfl, rfl⟩ := cons_eq_cons.mp h
    rw [if_neg hq]

variable {r r' text path path' text' : List ℕ} {n close : ℕ} {v x : Double} {ts : List (List ℕ)}

/-- A string is read up to its closing quote. -/
theorem stringify_read {us us' : List ℕ} (h : stringify us ++ r = stringify us' ++ r') :
    us = us' ∧ r = r' := by
  have hbo : ∀ us us' : List ℕ,
      us.flatMap escapeUnit ++ 0x22 :: r = us'.flatMap escapeUnit ++ 0x22 :: r' →
      us = us' ∧ r = r' := by
    intro us
    induction us with
    | nil =>
      intro us' h
      cases us' with
      | nil => exact ⟨rfl, (cons_eq_cons.mp h).2⟩
      | cons u us' =>
        have hrd := congrArg readUnit h
        rw [flatMap_cons, append_assoc, readUnit_escape] at hrd
        exact absurd hrd (by simp [readUnit])
    | cons u us ih =>
      intro us' h
      have hrd := congrArg readUnit h
      rw [flatMap_cons, append_assoc, readUnit_escape] at hrd
      cases us' with
      | nil => exact absurd hrd (by simp [readUnit])
      | cons u' us' =>
        rw [flatMap_cons, append_assoc, readUnit_escape] at hrd
        obtain ⟨rfl, hs⟩ := Prod.mk.inj (Option.some.inj hrd)
        obtain ⟨rfl, hr⟩ := ih us' hs
        exact ⟨rfl, hr⟩
  unfold stringify at h
  refine hbo us us' ?_
  simpa using h

/-! ## Numbers -/

/-- A character a number is written with. -/
def numeric (unit : ℕ) : Bool :=
  decide (unit = 0x2d) || decide (unit = 0x2e) || (decide (0x30 ≤ unit) && decide (unit ≤ 0x39))

/-- What may follow a value: nothing, a comma or a closing bracket. -/
def Stops (rest : List ℕ) : Prop :=
  ∀ unit ∈ rest.head?, unit = 0x2c ∨ unit = 0x5d ∨ unit = 0x7d

/-- A double that is no integer and in the range of what is written. -/
structure Fraction (x : Finite) : Prop where
  fraction : x.isInteger = false
  lowest : Finite.lowest ≤ x.magnitude
  highest : x.magnitude < Finite.highest

/-- What is assumed of the shortest decimals: they have a point among characters of numbers,
and no two doubles have one. -/
structure PlainDecimals (shortest : Finite → List Char) : Prop where
  plain : ∀ x, Fraction x → ∀ c ∈ shortest x, numeric c.toNat = true
  point : ∀ x, Fraction x → '.' ∈ shortest x
  apart : ∀ x y, Fraction x → Fraction y → shortest x = shortest y → x = y

theorem Finite.ext {x y : Finite} (hn : x.negative = y.negative)
    (hm : x.magnitude = y.magnitude) : x = y := by
  cases y
  cases hn
  cases hm
  rfl

theorem decimal_chars {neg : Bool} {c : Char} (h : c ∈ decimal neg n) :
    c = '-' ∨ c.isDigit = true := by
  rcases mem_append.mp h with h | h
  · cases neg with
    | false => exact absurd h (by simp)
    | true => exact .inl (mem_singleton.mp h)
  · exact .inr (Nat.isDigit_of_mem_toDigits (by decide) (by decide) h)

theorem decimal_injective {neg neg' : Bool} {n' : ℕ} (h : decimal neg n = decimal neg' n') :
    neg = neg' ∧ n = n' := by
  have hd : ∀ {n n'}, Nat.toDigits 10 n = Nat.toDigits 10 n' → n = n' := fun {n n'} h => by
    rw [← Nat.ofDigitChars_ten_toDigits (n := n), h, Nat.ofDigitChars_ten_toDigits]
  -- digits do not start with a minus sign
  have hm : ∀ {n n'}, Nat.toDigits 10 n ≠ '-' :: Nat.toDigits 10 n' := fun {n n'} h => by
    have hdg := Nat.isDigit_of_mem_toDigits (by decide) (by decide)
      (h ▸ mem_cons_self : '-' ∈ Nat.toDigits 10 n)
    exact absurd hdg (by decide)
  cases neg <;> cases neg'
  · exact ⟨rfl, hd h⟩
  · exact absurd h hm
  · exact absurd h.symm hm
  · exact ⟨rfl, hd (cons_eq_cons.mp h).2⟩

theorem numeric_textUnits {text : List Char} (h : ∀ c ∈ text, numeric c.toNat = true) :
    ∀ u ∈ textUnits text, numeric u = true := by
  intro u hu
  obtain ⟨c, hc, hu⟩ := mem_flatMap.mp hu
  have hn := h c hc
  have hs : c.toNat < 0x10000 := by
    simp [numeric] at hn
    omega
  rw [CommandOutput.unitsOf, if_pos hs, mem_singleton] at hu
  rwa [hu]

theorem numeric_decimal (neg : Bool) (n : ℕ) :
    ∀ c ∈ decimal neg n, numeric c.toNat = true := by
  intro c hc
  rcases decimal_chars hc with rfl | hdg
  · rfl
  · have hr : 0x30 ≤ c.toNat ∧ c.toNat ≤ 0x39 := Char.isDigit_iff_toNat.mp hdg
    simp [numeric, hr]

section Printing
variable {shortest : Finite → List Char}

/-- What an accepted number is, and its text. -/
theorem canonicalNumber_ok (h : canonicalNumber shortest v path = .ok text) :
    ∃ x, v = .finite x ∧
      (x.isInteger = true ∧ text = textUnits
          (decimal (x.negative && decide (x.magnitude ≠ 0)) x.magnitude.num) ∨
        Fraction x ∧ text = textUnits (shortest x)) := by
  cases v with
  | nan | infinite neg => exact absurd h (by simp [canonicalNumber])
  | finite x =>
    refine ⟨x, rfl, ?_⟩
    cases hi : x.isInteger with
    | true =>
      rw [canonicalNumber_integer path hi] at h
      split at h
      · exact .inl ⟨rfl, (Except.ok.inj h).symm⟩
      · exact absurd h (by simp)
    | false =>
      rw [canonicalNumber_fraction path hi] at h
      split at h
      next hr => exact .inr ⟨⟨hi, hr.1, hr.2⟩, (Except.ok.inj h).symm⟩
      next => exact absurd h (by simp)

theorem number_plain (hd : PlainDecimals shortest)
    (h : canonicalNumber shortest v path = .ok text) :
    text ≠ [] ∧ ∀ u ∈ text, numeric u = true := by
  have hne : ∀ {chars : List Char}, chars ≠ [] → textUnits chars ≠ [] := fun {chars} hc h =>
    hc (textUnits_injective h)
  obtain ⟨x, rfl, ⟨-, rfl⟩ | ⟨hf, rfl⟩⟩ := canonicalNumber_ok h
  · refine ⟨hne ?_, numeric_textUnits (numeric_decimal _ _)⟩
    exact append_ne_nil_of_right_ne_nil _ Nat.toDigits_ne_nil
  · exact ⟨hne (ne_nil_of_mem (hd.point x hf)), numeric_textUnits (hd.plain x hf)⟩

/-- An integer is written without a point. -/
theorem point_not_mem_decimal (neg : Bool) (n : ℕ) : '.' ∉ decimal neg n := by
  intro hm
  rcases decimal_chars hm with h | h
  · exact absurd h (by decide)
  · exact absurd h (by decide)

/-- **No two numbers have one text**, but for the two zeros. -/
theorem number_apart (hd : PlainDecimals shortest) {value' : Double}
    (h : canonicalNumber shortest v path = .ok text)
    (h' : canonicalNumber shortest value' path' = .ok text) : SameNumber v value' := by
  obtain ⟨x, rfl, hx⟩ := canonicalNumber_ok h
  obtain ⟨y, rfl, hy⟩ := canonicalNumber_ok h'
  rcases hx with ⟨hx, hxt⟩ | ⟨hx, hxt⟩ <;> rcases hy with ⟨hy, hyt⟩ | ⟨hy, hyt⟩ <;>
    have htx := textUnits_injective (hxt.symm.trans hyt)
  · obtain ⟨hsg, hn⟩ := decimal_injective htx
    have hm : x.magnitude = y.magnitude := by
      have hxd : x.magnitude.den = 1 := by simpa [isInteger] using hx
      have hyd : y.magnitude.den = 1 := by simpa [isInteger] using hy
      exact NNRat.ext_num_den hn (hxd.trans hyd.symm)
    by_cases hz : x.magnitude = 0
    · exact .inr ⟨hz, hm ▸ hz⟩
    · rw [← hm] at hsg
      simp only [ne_eq, hz, not_false_eq_true, decide_true, Bool.and_true] at hsg
      exact .inl (Finite.ext hsg hm)
  · exact absurd (htx ▸ hd.point y hy) (point_not_mem_decimal _ _)
  · exact absurd (htx.symm ▸ hd.point x hx) (point_not_mem_decimal _ _)
  · exact .inl (hd.apart x y hx hy htx)

end Printing

theorem takeWhile_numeric {rest : List ℕ} (htx : ∀ u ∈ text, numeric u = true) (hr : Stops rest) :
    (text ++ rest).takeWhile numeric = text := by
  rw [takeWhile_append_of_pos htx]
  cases rest with
  | nil => simp
  | cons u rest =>
    have hst : numeric u = false := by
      rcases hr u (by simp) with rfl | rfl | rfl <;> rfl
    simp [hst]

/-- A number is read up to the first character that is none of a number. -/
theorem numeric_read (htx : ∀ u ∈ text, numeric u = true) (htx' : ∀ u ∈ text', numeric u = true)
    (hr : Stops r) (hr' : Stops r') (h : text ++ r = text' ++ r') : text = text' ∧ r = r' := by
  have hsm : text = text' := by
    rw [← takeWhile_numeric htx hr, h, takeWhile_numeric htx' hr']
  subst hsm
  exact ⟨rfl, append_cancel_left h⟩

/-! ## Sequences -/

variable {ts' : List (List ℕ)}

section
variable {α : Type} {W : α → List ℕ → Prop} {S : α → α → Prop}

/-- What has the text of `a` at its start, before a stop, has no other text there. -/
def ReadsAs (W : α → List ℕ → Prop) (S : α → α → Prop) (a : α) : Prop :=
  ∀ b text text' r r', W a text → W b text' → Stops r → Stops r' → text ++ r = text' ++ r' →
    S a b ∧ r = r'

/-- A text is there, and does not start like a stop. -/
def Begins (W : α → List ℕ → Prop) : Prop :=
  ∀ a text, W a text → ∃ unit rest, text = unit :: rest ∧ unit ≠ 0x2c ∧ unit ≠ 0x5d ∧ unit ≠ 0x7d

theorem stops_tail (hc : close = 0x5d ∨ close = 0x7d) (ts : List (List ℕ)) (r : List ℕ) :
    Stops (ts.flatMap (fun text => 0x2c :: text) ++ close :: r) := by
  cases ts with
  | nil =>
    intro unit hu
    obtain rfl : close = unit := by simpa using hu
    exact .inr hc
  | cons text ts =>
    intro unit hu
    obtain rfl : 0x2c = unit := by simpa using hu
    exact .inl rfl

/-- Items after the first, each behind its comma. -/
theorem tail_read (hc : close = 0x5d ∨ close = 0x7d) {as bs : List α}
    (hrd : ∀ a ∈ as, ReadsAs W S a) (has : List.Forall₂ W as ts) (hbs : List.Forall₂ W bs ts')
    (h : ts.flatMap (fun text => 0x2c :: text) ++ close :: r =
      ts'.flatMap (fun text => 0x2c :: text) ++ close :: r') : List.Forall₂ S as bs ∧ r = r' := by
  have hm : close ≠ 0x2c := by
    rintro rfl
    rcases hc with h | h <;> exact absurd h (by decide)
  induction has generalizing bs ts' with
  | nil =>
    cases hbs with
    | nil => exact ⟨.nil, (cons_eq_cons.mp h).2⟩
    | cons hb _ => exact absurd (cons_eq_cons.mp h).1 hm
  | @cons a text as ts ha has ih =>
    cases hbs with
    | nil => exact absurd (cons_eq_cons.mp h).1.symm hm
    | @cons b text' bs ts' hb hbs =>
      rw [flatMap_cons, flatMap_cons, append_assoc, append_assoc] at h
      obtain ⟨-, h⟩ := cons_eq_cons.mp h
      obtain ⟨hab, hre⟩ := hrd a mem_cons_self b text text' _ _ ha hb
        (stops_tail hc ts r) (stops_tail hc ts' r') h
      obtain ⟨hs, hr⟩ := ih (fun a ha => hrd a (mem_cons_of_mem _ ha)) hbs hre
      exact ⟨.cons hab hs, hr⟩

/-- **A sequence is read item by item up to its closing bracket.** -/
theorem joined_read (hc : close = 0x5d ∨ close = 0x7d) {as bs : List α} (hg : Begins W)
    (hrd : ∀ a ∈ as, ReadsAs W S a) (has : List.Forall₂ W as ts) (hbs : List.Forall₂ W bs ts')
    (h : joined 0x2c ts ++ close :: r = joined 0x2c ts' ++ close :: r') :
    List.Forall₂ S as bs ∧ r = r' := by
  -- no item starts like the closing bracket
  have hn : ∀ {b text rest rest'}, W b text → close :: rest ≠ text ++ rest' := by
    intro b text rest rest' hb heq
    obtain ⟨u, text, rfl, -, hq, hcr⟩ := hg b text hb
    obtain ⟨rfl, -⟩ := cons_eq_cons.mp heq
    exact hc.elim hq hcr
  cases has with
  | nil =>
    cases hbs with
    | nil => exact ⟨.nil, (cons_eq_cons.mp h).2⟩
    | cons hb _ =>
      rw [joined, joined, append_assoc] at h
      exact absurd h (hn hb)
  | @cons a text as ts ha has =>
    cases hbs with
    | nil =>
      rw [joined, joined, append_assoc] at h
      exact absurd h.symm (hn ha)
    | @cons b text' bs ts' hb hbs =>
      rw [joined, joined, append_assoc, append_assoc] at h
      obtain ⟨hab, hre⟩ := hrd a mem_cons_self b text text' _ _ ha hb
        (stops_tail hc ts r) (stops_tail hc ts' r') h
      obtain ⟨hs, hr⟩ := tail_read hc (fun a ha => hrd a (mem_cons_of_mem _ ha)) has hbs hre
      exact ⟨.cons hab hs, hr⟩

end

/-! ## Values -/

section
variable {shortest : Finite → List Char} {v : JsValue} {text : List ℕ}

/-- The first character of a value's text. -/
def Leads : JsValue → ℕ → Prop
  | .null, unit => unit = 0x6e
  | .bool flag, unit => unit = if flag then 0x74 else 0x66
  | .number _, unit => numeric unit = true
  | .string _, unit => unit = 0x22
  | .array _, unit => unit = 0x5b
  | .object _, unit => unit = 0x7b
  | _, _ => False

theorem wrote_number (h : Wrote shortest (.number x) text) :
    ∃ path, canonicalNumber shortest x path = .ok text := h

theorem wrote_string {units : List ℕ} (h : Wrote shortest (.string units) text) :
    text = stringify units := by
  obtain ⟨path, h⟩ := h
  rw [write] at h
  split at h
  · exact absurd h (by simp)
  · exact (Except.ok.inj h).symm

/-- The first unit tells the kind of the value. -/
theorem wrote_leads (hd : PlainDecimals shortest) (h : Wrote shortest v text) :
    ∃ unit rest, text = unit :: rest ∧ Leads v unit := by
  cases v with
  | null =>
    obtain ⟨path, h⟩ := h
    exact ⟨_, _, (Except.ok.inj h).symm, rfl⟩
  | bool flag =>
    obtain ⟨path, h⟩ := h
    cases flag <;> exact ⟨_, _, (Except.ok.inj h).symm, rfl⟩
  | number x =>
    obtain ⟨path, h⟩ := wrote_number h
    obtain ⟨hne, ha⟩ := number_plain hd h
    obtain ⟨unit, rest, rfl⟩ := exists_cons_of_ne_nil hne
    exact ⟨unit, rest, rfl, ha unit mem_cons_self⟩
  | string us => exact ⟨_, _, wrote_string h, rfl⟩
  | array xs =>
    obtain ⟨ts, -, rfl⟩ := wrote_array h
    exact ⟨_, _, rfl, rfl⟩
  | object es =>
    obtain ⟨ts, -, rfl⟩ := wrote_object h
    exact ⟨_, _, rfl, rfl⟩
  | undefined | instanceObject | unsupported typeName =>
    exact absurd h (by simp [Wrote, write])

theorem begins_value (hd : PlainDecimals shortest) : Begins (Wrote shortest) := by
  intro v text h
  obtain ⟨u, rest, rfl, hl⟩ := wrote_leads hd h
  refine ⟨u, rest, rfl, ?_⟩
  have hn : numeric 0x2c = false ∧ numeric 0x5d = false ∧ numeric 0x7d = false := by decide
  refine ⟨?_, ?_, ?_⟩ <;> rintro rfl <;> cases v <;>
    simp_all [Leads] <;> split at hl <;> exact absurd hl (by decide)

theorem begins_member : Begins (WroteMember shortest) := by
  intro e text h
  obtain ⟨written, -, rfl⟩ := h.value
  exact ⟨0x22, _, rfl, by decide, by decide, by decide⟩

/-- Which of the kinds of JSON a value is. -/
def JsValue.kind : JsValue → ℕ
  | .null => 0
  | .bool _ => 1
  | .number _ => 2
  | .string _ => 3
  | .array _ => 4
  | .object _ => 5
  | _ => 6

/-- The kind by the first character. -/
def kindOf (unit : ℕ) : ℕ :=
  if unit = 0x6e then 0 else if unit = 0x74 ∨ unit = 0x66 then 1 else if unit = 0x22 then 3
  else if unit = 0x5b then 4 else if unit = 0x7b then 5 else 2

theorem Leads.kind {unit : ℕ} (h : Leads v unit) : v.kind = kindOf unit := by
  cases v with
  | null | string us | array xs | object es => rw [h]; rfl
  | bool flag => cases flag <;> rw [h] <;> rfl
  | number x =>
    have hn : unit = 0x2d ∨ unit = 0x2e ∨ 0x30 ≤ unit ∧ unit ≤ 0x39 := by
      simpa [Leads, numeric, or_assoc] using h
    unfold kindOf
    repeat rw [if_neg (by omega)]
    rfl
  | undefined | instanceObject | unsupported typeName => exact h.elim

/-- Texts that start alike have values of one kind. -/
theorem kind_alike (hd : PlainDecimals shortest) {a b : JsValue} (ha : Wrote shortest a text)
    (hb : Wrote shortest b text') (h : text ++ r = text' ++ r') : a.kind = b.kind := by
  obtain ⟨u, rest, rfl, hl⟩ := wrote_leads hd ha
  obtain ⟨u', rest', rfl, hl'⟩ := wrote_leads hd hb
  obtain ⟨rfl, -⟩ := cons_eq_cons.mp h
  rw [hl.kind, hl'.kind]

theorem member_reads {entry : List ℕ × JsValue} (h : ReadsAs (Wrote shortest) Same entry.2) :
    ReadsAs (WroteMember shortest) SameMember entry := by
  intro e' text text' r r' he he' hr hr' heq
  obtain ⟨written, hwr, rfl⟩ := he.value
  obtain ⟨written', hwr', rfl⟩ := he'.value
  rw [append_assoc, append_assoc] at heq
  obtain ⟨hk, hs⟩ := stringify_read heq
  obtain ⟨hsm, hr⟩ := h e'.2 written written' r r' hwr hwr' hr hr'
    (cons_eq_cons.mp hs).2
  exact ⟨⟨hk, hsm⟩, hr⟩

/-- **The text of a value is the text of no other value**, also with more text behind. -/
theorem value_reads (hd : PlainDecimals shortest) (a : JsValue) :
    ReadsAs (Wrote shortest) Same a := by
  induction a using JsValue.induct
  all_goals
    intro b text text' r r' ha hb hr hr' heq
    have hkd := kind_alike hd ha hb heq
    cases b <;> cases hkd
  case null.null =>
    obtain ⟨path, ha⟩ := ha
    obtain ⟨path', hb⟩ := hb
    obtain rfl := (Except.ok.inj ha).symm.trans (Except.ok.inj hb)
    exact ⟨.null, append_cancel_left heq⟩
  case bool.bool flag flag' =>
    obtain ⟨path, ha⟩ := ha
    obtain ⟨path', hb⟩ := hb
    cases ha
    cases hb
    have hfg : flag = flag' := by
      cases flag <;> cases flag' <;>
        first | rfl | exact absurd (cons_eq_cons.mp heq).1 (by decide)
    subst hfg
    exact ⟨.bool flag, append_cancel_left heq⟩
  case number.number =>
    obtain ⟨path, ha⟩ := wrote_number ha
    obtain ⟨path', hb⟩ := wrote_number hb
    obtain ⟨rfl, hs⟩ := numeric_read (number_plain hd ha).2
      (number_plain hd hb).2 hr hr' heq
    exact ⟨.number (number_apart hd ha hb), hs⟩
  case string.string us us' =>
    rw [wrote_string ha, wrote_string hb] at heq
    obtain ⟨rfl, hs⟩ := stringify_read heq
    exact ⟨.string us, hs⟩
  case array.array ih _ =>
    obtain ⟨ts, hie, rfl⟩ := wrote_array ha
    obtain ⟨ts', hi', rfl⟩ := wrote_array hb
    have hi : joined 0x2c ts ++ 0x5d :: r = joined 0x2c ts' ++ 0x5d :: r' := by
      simpa using heq
    obtain ⟨hsm, hs⟩ := joined_read (.inl rfl) (begins_value hd) ih hie hi'
      hi
    exact ⟨.array (sameItems_iff.mpr hsm), hs⟩
  case object.object es ih es' =>
    obtain ⟨ts, hm, rfl⟩ := wrote_object ha
    obtain ⟨ts', hm', rfl⟩ := wrote_object hb
    have hi : joined 0x2c ts ++ 0x7d :: r = joined 0x2c ts' ++ 0x7d :: r' := by
      simpa using heq
    have hre : ∀ entry ∈ members es, ReadsAs (WroteMember shortest) SameMember entry :=
      fun entry he => member_reads
        (ih entry (mem_of_mem_present ((members_perm es).mem_iff.mp he)))
    obtain ⟨hsm, hs⟩ := joined_read (.inr rfl) begins_member hre hm hm' hi
    exact ⟨.object (members_perm es).symm (members_perm es').symm (sameMembers_iff.mpr hsm), hs⟩
  all_goals exact absurd ha (by simp [Wrote, write])

/-! ## One value has one text -/

theorem same_number {y : Double} (hsm : SameNumber x y)
    (h : canonicalNumber shortest x path = .ok text)
    (h' : canonicalNumber shortest y path' = .ok text') : text = text' := by
  obtain ⟨x, rfl, hx⟩ := canonicalNumber_ok h
  obtain ⟨y, rfl, hy⟩ := canonicalNumber_ok h'
  rcases hsm with rfl | ⟨hr, hz'⟩
  · rcases hx with ⟨hx, rfl⟩ | ⟨hx, rfl⟩ <;> rcases hy with ⟨hy, rfl⟩ | ⟨hy, rfl⟩
    · rfl
    · exact absurd hy.fraction (by simp [hx])
    · exact absurd hx.fraction (by simp [hy])
    · rfl
  · have hi : ∀ z : Finite, z.magnitude = 0 → z.isInteger = true := fun z hz => by
      simp [isInteger, hz]
    rcases hx with ⟨-, rfl⟩ | ⟨hx, -⟩
    · rcases hy with ⟨-, rfl⟩ | ⟨hy, -⟩
      · simp [hr, hz']
      · exact absurd hy.fraction (by simp [hi y hz'])
    · exact absurd hx.fraction (by simp [hi x hr])

/-- Sequences of the same values have the same texts. -/
theorem texts_eq {α : Type} {W : α → List ℕ → Prop} {S : α → α → Prop} {as bs : List α}
    {texts' : List (List ℕ)} (ho : ∀ a ∈ as, ∀ b ∈ bs, ∀ text text', S a b → W a text →
      W b text' → text = text') (hsm : List.Forall₂ S as bs) (has : List.Forall₂ W as ts)
    (hbs : List.Forall₂ W bs texts') : ts = texts' := by
  induction hsm generalizing ts texts' with
  | nil =>
    cases has
    cases hbs
    rfl
  | cons hab _ ih =>
    cases has with
    | cons ha has =>
      cases hbs with
      | cons hb hbs =>
        have hf := ho _ mem_cons_self _ mem_cons_self _ _ hab ha hb
        have hr := ih (fun a ha b hb => ho a (mem_cons_of_mem _ ha) b
          (mem_cons_of_mem _ hb)) has hbs
        rw [hf, hr]

/-- The members of an accepted object sort into one list, however they are enumerated. -/
theorem members_eq {es entries' : List (List ℕ × JsValue)} (hp : (JsValue.object es).Proper)
    (hwr : List.Forall₂ (WroteMember shortest) (members es) ts) (hpm : (present es).Perm entries') :
    members es = (codePointOrder.comap Prod.fst).sort entries' := by
  rw [JsValue.Proper, properEntries_iff] at hp
  refine sortKeys_perm hpm (hp.1.sublist (filter_sublist.map _)) fun e he => ?_
  obtain ⟨text, hw⟩ := exists_right hwr ((members_perm es).mem_iff.mpr he)
  exact exists_text (hp.2 e (mem_of_mem_present he)).1 hw.key

/-- Values that are the same have one text. -/
theorem same_text (a : JsValue) {b : JsValue} (hsm : Same a b) (hp : a.Proper) (hp' : b.Proper)
    (ha : Wrote shortest a text) (hb : Wrote shortest b text') : text = text' := by
  induction a using JsValue.induct generalizing b text text' with
  | null | bool flag =>
    cases hsm
    obtain ⟨path, ha⟩ := ha
    obtain ⟨path', hb⟩ := hb
    exact (Except.ok.inj ha).symm.trans (Except.ok.inj hb)
  | number x =>
    cases hsm with
    | number hsm =>
      obtain ⟨path, ha⟩ := wrote_number ha
      obtain ⟨path', hb⟩ := wrote_number hb
      exact same_number hsm ha hb
  | string us =>
    cases hsm
    rw [wrote_string ha, wrote_string hb]
  | array xs ih =>
    cases hsm with
    | array hsm =>
      rw [JsValue.Proper, properItems_iff] at hp hp'
      obtain ⟨ts, hi, rfl⟩ := wrote_array ha
      obtain ⟨ts', hi', rfl⟩ := wrote_array hb
      rw [texts_eq (fun a ha b hb _ _ hab hwa hwb => ih a ha hab (hp a ha) (hp' b hb)
        hwa hwb) (sameItems_iff.mp hsm) hi hi']
  | object entries ih =>
    cases hsm with
    | @object _ es' zs zs' hpm hpm' hsm =>
      obtain ⟨ts, hme, rfl⟩ := wrote_object ha
      obtain ⟨ts', hm', rfl⟩ := wrote_object hb
      have hs := Comparator.forall₂_sort (codePointOrder.comap Prod.fst)
        (codePointOrder.comap Prod.fst) (fun a a' b b' h h' => by
          change codePointOrder.le a.1 a'.1 ↔ codePointOrder.le b.1 b'.1
          rw [h.key, h'.key]) (sameMembers_iff.mp hsm)
      rw [← members_eq hp hme hpm, ← members_eq hp' hm' hpm'] at hs
      rw [JsValue.Proper, properEntries_iff] at hp hp'
      have hm : ∀ {es : List (List ℕ × JsValue)} {e}, e ∈ members es → e ∈ es :=
        fun he => mem_of_mem_present ((members_perm _).mem_iff.mp he)
      rw [texts_eq (fun e he e' he' _ _ hee' hwe hwe' => ?_) hs hme hm']
      obtain ⟨written, hwr, rfl⟩ := hwe.value
      obtain ⟨written', hwr', rfl⟩ := hwe'.value
      rw [hee'.key, ih e (hm he) hee'.value (hp.2 e (hm he)).2 (hp'.2 e' (hm he')).2 hwr hwr']
  | undefined | instanceObject | unsupported typeName =>
    exact absurd ha (by simp [Wrote, write])

end

/-! ## A printer -/

/-- A fraction by its numerator and denominator. -/
def fractionText (x : Finite) : List Char :=
  Finite.decimal x.negative x.magnitude.num ++ '.' :: Nat.toDigits 10 x.magnitude.den

theorem fractionText_plain : PlainDecimals fractionText where
  plain x _ c hc := by
    rcases mem_append.mp hc with hc | hc
    · exact numeric_decimal _ _ c hc
    · rcases mem_cons.mp hc with rfl | hc
      · rfl
      · exact numeric_decimal false _ c hc
  point x _ := mem_append_right _ mem_cons_self
  apart x y _ _ h := by
    obtain ⟨hn, -, hd⟩ := (append_cons_inj_of_notMem (point_not_mem_decimal _ _)
      (point_not_mem_decimal false _)).mp h
    obtain ⟨hsg, hn⟩ := decimal_injective hn
    have hd : decimal false x.magnitude.den = decimal false y.magnitude.den := hd
    exact Finite.ext hsg (NNRat.ext_num_den hn (decimal_injective hd).2)

/-- **Canonical text is injective**: accepted values have one text exactly if they are the
same up to the order of keys, undefined members and the sign of zero. -/
theorem canonicalJson_injective {shortest : Finite → List Char}
    (hdecimals : PlainDecimals shortest) {a b : JsValue} (ha : a.Proper) (hb : b.Proper)
    {text text' : List ℕ} (hwa : canonicalJson shortest a = .ok text)
    (hwb : canonicalJson shortest b = .ok text') : text = text' ↔ Same a b := by
  constructor
  · intro h
    have hs : Stops [] := fun u hu => absurd hu (by simp)
    exact (value_reads hdecimals a b text text' [] [] ⟨[], hwa⟩ ⟨[], hwb⟩ hs hs (by rw [h])).1
  · intro h
    exact same_text a h ha hb ⟨[], hwa⟩ ⟨[], hwb⟩

/-- Two objects with one text: other orders, and a member that is `undefined`. -/
theorem canonicalJson_injective_swapped :
    Same (.object [(textUnits ['b'], .bool true), (textUnits ['a'], .null)])
      (.object [(textUnits ['a'], .null), (textUnits ['c'], .undefined),
        (textUnits ['b'], .bool true)]) :=
  (canonicalJson_injective fractionText_plain (by simp [JsValue.Proper, properEntries]; decide)
    (by simp [JsValue.Proper, properEntries]; decide)
    (show _ = Except.ok (literal "\x7b\"a\":null,\"b\":true\x7d") by rfl)
    (show _ = Except.ok (literal "\x7b\"a\":null,\"b\":true\x7d") by rfl)).mp rfl

end ModelProxy.CanonicalJson
