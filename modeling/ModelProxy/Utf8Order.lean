import Mathlib.Data.List.Lex
import ModelProxy.Utf8

/-! # Byte order is code point order

The bytes of two characters differ at a place both have, and compare there as the
characters do; so texts compare by their bytes as by their code points.
-/
namespace ModelProxy.Utf8
open List

/-- At the first place where they differ, `xs` is less. -/
def Below (xs ys : List UInt8) : Prop :=
  ∃ same x y xs' ys', xs = same ++ x :: xs' ∧ ys = same ++ y :: ys' ∧ x < y

theorem Below.append {xs ys : List UInt8} (h : Below xs ys) (r r' : List UInt8) :
    xs ++ r < ys ++ r' := by
  obtain ⟨same, x, y, xs', ys', rfl, rfl, hlt⟩ := h
  rw [append_assoc, append_assoc]
  exact append_left_lt (cons_lt_cons_iff.mpr (.inl hlt))

theorem ofNat_lt {m n : ℕ} (h : m < n) (hn : n < 256) : UInt8.ofNat m < UInt8.ofNat n := by
  rw [UInt8.lt_iff_toNat_lt, UInt8.toNat_ofNat_of_lt' (h.trans hn), UInt8.toNat_ofNat_of_lt' hn]
  exact h

theorem below_head {m n : ℕ} (h : m < n) (hn : n < 256) (xs ys : List UInt8) :
    Below (UInt8.ofNat m :: xs) (UInt8.ofNat n :: ys) :=
  ⟨[], _, _, xs, ys, rfl, rfl, ofNat_lt h hn⟩

theorem Below.cons {xs ys : List UInt8} (b : UInt8) (h : Below xs ys) :
    Below (b :: xs) (b :: ys) := by
  obtain ⟨same, x, y, xs', ys', rfl, rfl, hlt⟩ := h
  exact ⟨b :: same, x, y, xs', ys', rfl, rfl, hlt⟩

/-- Digits in base 64, most significant first, compare as the number. -/
theorem below_digit {a b : ℕ} {xs ys : List UInt8} (hle : a ≤ b) (hb : b < 256)
    (h : a = b → Below xs ys) : Below (UInt8.ofNat a :: xs) (UInt8.ofNat b :: ys) := by
  rcases Nat.eq_or_lt_of_le hle with rfl | hlt
  · exact (h rfl).cons _
  · exact below_head hlt hb xs ys

/-- The bytes keep the order of the code points. -/
theorem encodeChar_below {c d : Char} (h : c.toNat < d.toNat) :
    Below (encodeChar c) (encodeChar d) := by
  have hd : d.toNat < 0x110000 := by
    have hvd := d.valid
    have : d.toNat.isValidChar := hvd
    rcases this with h | h <;> omega
  unfold encodeChar
  generalize d.toNat = w at h hd
  dsimp only
  -- fewer bytes: a smaller lead byte; as many: the digits compare
  by_cases h1 : w < 0x80
  · rw [if_pos h1, if_pos (by omega)]
    exact below_head h (by omega) _ _
  by_cases h2 : w < 0x800
  · rw [if_pos h2]
    split
    · exact below_head (by omega) (by omega) _ _
    · rw [if_pos (by omega)]
      exact below_digit (by omega) (by omega) fun _ => below_head (by omega) (by omega) _ _
  by_cases h3 : w < 0x10000
  · rw [if_pos h3]
    split
    · exact below_head (by omega) (by omega) _ _
    split
    · exact below_head (by omega) (by omega) _ _
    · rw [if_pos (by omega)]
      exact below_digit (by omega) (by omega) fun _ => below_digit (by omega) (by omega) fun _ =>
        below_head (by omega) (by omega) _ _
  split
  · exact below_head (by omega) (by omega) _ _
  split
  · exact below_head (by omega) (by omega) _ _
  split
  · exact below_head (by omega) (by omega) _ _
  · exact below_digit (by omega) (by omega) fun _ => below_digit (by omega) (by omega) fun _ =>
      below_digit (by omega) (by omega) fun _ => below_head (by omega) (by omega) _ _

theorem append_lt_append_iff (same xs ys : List UInt8) : same ++ xs < same ++ ys ↔ xs < ys := by
  induction same with
  | nil => rfl
  | cons b same ih =>
    simp [ih]

/-- **Texts compare by their bytes as by their code points.** -/
theorem encode_lt_iff (text text' : List Char) :
    encode text < encode text' ↔ text.map Char.toNat < text'.map Char.toNat := by
  induction text generalizing text' with
  | nil =>
    cases text' with
    | nil => simp
    | cons d text' =>
      rw [encode_cons]
      cases hd : encodeChar d with
      | nil => exact absurd hd (encodeChar_ne_nil d)
      | cons b bs => simp
  | cons c text ih =>
    cases text' with
    | nil => simp
    | cons d text' =>
      rw [encode_cons, encode_cons, map_cons, map_cons, cons_lt_cons_iff]
      rcases Nat.lt_trichotomy c.toNat d.toNat with hlt | heq | hgt
      · exact iff_of_true ((encodeChar_below hlt).append _ _) (.inl hlt)
      · obtain rfl : c = d := Char.toNat_inj.mp heq
        simp [append_lt_append_iff, ih]
      · refine iff_of_false (fun h => ?_) ?_
        · exact List.lt_asymm ((encodeChar_below hgt).append _ _) h
        · omega

end ModelProxy.Utf8
