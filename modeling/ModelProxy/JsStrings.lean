import ModelProxy.CanonicalWriting

/-! # JavaScript strings

A string is a list of UTF-16 units, of which a surrogate may stand alone.  A text without lone
surrogates is a list of characters.
-/
namespace ModelProxy.Js
open CanonicalJson UInt16 List

open CommandOutput (textUnits textUnits_append textUnits_cons unitsOf isHighSurrogate
  isLowSurrogate)

/-- A string as its UTF-16 units. -/
abbrev JsString := List UInt16

/-- The string of a text. -/
def ofText (text : List Char) : JsString := (textUnits text).map UInt16.ofNat

/-- A string literal. -/
def js (literal : String) : JsString := ofText literal.toList

/-- The unit is a high surrogate. -/
def isHigh (unit : UInt16) : Bool := isHighSurrogate unit.toNat

/-- The unit is a low surrogate. -/
def isLow (unit : UInt16) : Bool := isLowSurrogate unit.toNat

/-- The character of a pair of surrogates. -/
def pairChar (high low : UInt16) : Char :=
  Char.ofNat (0x10000 + (high.toNat - 0xD800) * 1024 + (low.toNat - 0xDC00))

/-- What a unit without a partner becomes where a text is needed. -/
def unitChar (unit : UInt16) : Char :=
  if isHigh unit || isLow unit then Char.ofNat 0xFFFD else Char.ofNat unit.toNat

/-- The text an encoder reads a string as. -/
def toText : JsString → List Char
  | [] => []
  | [unit] => [unitChar unit]
  | unit :: next :: units =>
    if isHigh unit && isLow next then pairChar unit next :: toText units
    else unitChar unit :: toText (next :: units)

/-- `new TextEncoder().encode(s).byteLength`. -/
def byteLength (s : JsString) : ℕ := Utf8.byteLength (toText s)

/-! ## Texts -/

/-- The units of a character. -/
def charUnits (c : Char) : JsString := (unitsOf c.toNat).map UInt16.ofNat

theorem ofText_cons (c : Char) (text : List Char) :
    ofText (c :: text) = charUnits c ++ ofText text := by
  rw [ofText, textUnits_cons, map_append]
  rfl

/-- A character is one unit that is no surrogate, or a pair of surrogates. -/
theorem charUnits_cases (c : Char) :
    (∃ u, charUnits c = [u] ∧ u.toNat = c.toNat ∧ isHigh u = false ∧ isLow u = false) ∨
      ∃ high low, charUnits c = [high, low] ∧ isHigh high = true ∧ isLow low = true ∧
        pairChar high low = c := by
  unfold charUnits
  rcases unitsOf_cases c with ⟨hu, hhi, hl⟩ | ⟨high, low, hu, hhi, hl, hcd⟩
  · left
    have hs : c.toNat < 2 ^ 16 := by
      unfold unitsOf at hu
      split at hu
      next hlt => exact hlt
      next => simp at hu
    have hn : (ofNat c.toNat).toNat = c.toNat := by
      exact Nat.mod_eq_of_lt hs
    refine ⟨ofNat c.toNat, by rw [hu]; rfl, hn, ?_, ?_⟩
    · rw [isHigh, hn, hhi]
    · rw [isLow, hn, hl]
  · right
    have hh : (ofNat high).toNat = high :=
      Nat.mod_eq_of_lt (by have := isHighSurrogate_iff.mp hhi; omega)
    have hN : (ofNat low).toNat = low :=
      Nat.mod_eq_of_lt (by have := isLowSurrogate_iff.mp hl; omega)
    refine ⟨ofNat high, ofNat low, by rw [hu]; rfl, ?_, ?_, ?_⟩
    · rw [isHigh, hh, hhi]
    · rw [isLow, hN, hl]
    · rw [pairChar, hh, hN, ← hcd, Char.ofNat_toNat]

/-- **A text is read back from its string.** -/
@[simp] theorem toText_ofText (text : List Char) : toText (ofText text) = text := by
  induction text with
  | nil => rfl
  | cons c text ih =>
    rw [ofText_cons]
    rcases charUnits_cases c with ⟨u, hu, hn, hhi, hl⟩ |
        ⟨high, low, hu, hhi, hl, hpr⟩
    · rw [hu, singleton_append]
      have hch : unitChar u = c := by
        rw [unitChar, hhi, hl, hn]
        exact Char.ofNat_toNat c
      cases hr : ofText text with
      | nil =>
        rw [hr] at ih
        rw [toText, hch, ← ih]
        rfl
      | cons next us =>
        rw [hr] at ih
        rw [toText, hhi, Bool.false_and, if_neg (by simp), hch, ih]
    · rw [hu, cons_append, singleton_append, toText, hhi, hl, Bool.true_and, if_pos rfl, hpr, ih]

theorem ofText_injective : Function.Injective ofText :=
  Function.LeftInverse.injective toText_ofText

theorem js_injective : Function.Injective js := by
  intro a b h
  exact String.toList_inj.mp (ofText_injective h)

@[simp] theorem js_inj {a b : String} : js a = js b ↔ a = b := js_injective.eq_iff

end ModelProxy.Js
