import Mathlib.Data.List.Sort

/-! # Consistent comparison functions and stable sorting

A comparison function returns a negative, zero or positive number.  It is
*consistent* when it orders its arguments by a total preorder; a stable sort by
such a function is determined by the list, whichever algorithm computes it, so
insertion sort stands for all of them.
-/
namespace ModelProxy
open List

/-- A consistent comparison function: two arguments compare the other way round
when they are swapped, and being at most is transitive. -/
structure Comparator (α : Type) where
  cmp : α → α → Int
  swap : ∀ a b, cmp a b ≤ 0 ↔ 0 ≤ cmp b a
  trans : ∀ a b c, cmp a b ≤ 0 → cmp b c ≤ 0 → cmp a c ≤ 0

namespace Comparator
variable {α β : Type}

/-- `a` sorts no later than `b`. -/
def le (c : Comparator α) (a b : α) : Prop := c.cmp a b ≤ 0

instance (c : Comparator α) : DecidableRel c.le := fun a b => Int.decLe (c.cmp a b) 0

theorem le_total (c : Comparator α) (a b : α) : c.le a b ∨ c.le b a := by
  rcases Int.lt_or_le 0 (c.cmp a b) with h | h
  · exact .inr ((c.swap b a).mpr (Int.le_of_lt h))
  · exact .inl h

instance (c : Comparator α) : Std.Total c.le := ⟨c.le_total⟩

instance (c : Comparator α) : IsTrans α c.le := ⟨c.trans⟩

/-- Compare by a key. -/
def comap (c : Comparator β) (f : α → β) : Comparator α where
  cmp a b := c.cmp (f a) (f b)
  swap a b := c.swap (f a) (f b)
  trans x y z := c.trans (f x) (f y) (f z)

/-- The difference of two numbers. -/
def difference : Comparator Int where
  cmp a b := a - b
  swap a b := by omega
  trans a b c := by omega

theorem sign_nonpos [LinearOrder α] (a b : α) :
    (if a ≠ b then (if a < b then (-1 : Int) else 1) else 0) ≤ 0 ↔ a ≤ b := by
  rcases lt_trichotomy a b with h | rfl | h
  · simp [h, h.ne, h.le]
  · simp
  · simp [h.ne', h.not_gt, h.not_ge]

/-- The sign of the order of two values. -/
def sign [LinearOrder α] : Comparator α where
  cmp a b := if a ≠ b then (if a < b then -1 else 1) else 0
  swap a b := by
    rcases lt_trichotomy a b with h | rfl | h
    · simp [h, h.ne, h.ne', h.not_gt]
    · simp
    · simp [h, h.ne, h.ne', h.not_gt]
  trans a b c := by
    rw [sign_nonpos, sign_nonpos, sign_nonpos]
    exact le_trans

theorem sign_le [LinearOrder α] {a b : α} : sign.le a b ↔ a ≤ b := sign_nonpos a b

/-- The other way round. -/
def flip (c : Comparator α) : Comparator α where
  cmp a b := c.cmp b a
  swap a b := c.swap b a
  trans x y z hxy hyz := c.trans z y x hyz hxy

/-- The first comparison decides; ties go to the second. -/
def thenBy (c d : Comparator α) : Comparator α where
  cmp x y := if c.cmp x y ≠ 0 then c.cmp x y else d.cmp x y
  swap x y := by
    have h₁ := c.swap x y
    have h₂ := c.swap y x
    have h₃ := d.swap x y
    split_ifs <;> omega
  trans x y z := by
    -- a tie of `x` and `z` makes both steps of the chain ties
    have h₁ := c.swap y x
    have h₂ := c.swap z y
    have h₃ := c.swap z x
    have h₄ := c.trans x y z
    have h₅ := c.trans y z x
    have h₆ := c.trans z x y
    have h₇ := d.trans x y z
    split_ifs <;> omega

/-- Stable sort. -/
def sort (c : Comparator α) (l : List α) : List α := l.insertionSort c.le

theorem sort_perm (c : Comparator α) (l : List α) : (c.sort l).Perm l :=
  perm_insertionSort c.le l

variable {l : List α} {f : α → ℕ}

@[simp] theorem mem_sort (c : Comparator α) {a : α} : a ∈ c.sort l ↔ a ∈ l :=
  (c.sort_perm l).mem_iff

theorem sort_pairwise (c : Comparator α) (l : List α) : (c.sort l).Pairwise c.le :=
  pairwise_insertionSort c.le l

/-- Sorting a sorted list changes nothing. -/
theorem sort_of_pairwise (c : Comparator α) (h : l.Pairwise c.le) : c.sort l = l :=
  List.Pairwise.insertionSort_eq h

/-- Filtering after inserting into a sorted list is inserting into the filtered
list, if the new element is kept at all. -/
theorem filter_orderedInsert (c : Comparator α) (p : α → Bool) (a : α) : ∀ {l : List α},
    l.Pairwise c.le → (l.orderedInsert c.le a).filter p =
      if p a then (l.filter p).orderedInsert c.le a else l.filter p
  | [], _ => by by_cases h : p a <;> simp [h]
  | b :: l, hl => by
    have ih := filter_orderedInsert c p a hl.of_cons
    have hb : ∀ x ∈ l, c.le b x := fun x hx => rel_of_pairwise_cons hl hx
    by_cases hab : c.le a b
    · rw [orderedInsert_cons_of_le c.le l hab]
      by_cases hp : p a
      · -- `a` precedes everything kept of `b :: l`
        have ha : ∀ x ∈ (b :: l).filter p, c.le a x := by
          intro x hx
          rcases mem_cons.mp (mem_of_mem_filter hx) with rfl | hx
          · exact hab
          · exact c.trans a b x hab (hb x hx)
        rw [if_pos hp, filter_cons_of_pos hp]
        cases hf : (b :: l).filter p with
        | nil => rfl
        | cons x r =>
          rw [orderedInsert_cons_of_le c.le r (ha x (hf ▸ mem_cons_self))]
      · rw [if_neg hp, filter_cons_of_neg hp]
    · rw [orderedInsert_of_not_le c.le l hab]
      by_cases hpb : p b
      · rw [filter_cons_of_pos hpb, filter_cons_of_pos hpb, ih]
        by_cases hp : p a
        · rw [if_pos hp, if_pos hp, orderedInsert_of_not_le c.le _ hab]
        · rw [if_neg hp, if_neg hp]
      · rw [filter_cons_of_neg hpb, filter_cons_of_neg hpb, ih]

/-- **A stable sort commutes with filtering.** -/
theorem sort_filter (c : Comparator α) (p : α → Bool) (l : List α) :
    c.sort (l.filter p) = (c.sort l).filter p := by
  induction l with
  | nil => rfl
  | cons a l ih =>
    have hs : c.sort (a :: l) = (c.sort l).orderedInsert c.le a := rfl
    rw [hs, c.filter_orderedInsert p a (c.sort_pairwise l), ← ih]
    by_cases hp : p a
    · rw [filter_cons_of_pos hp, if_pos hp]
      rfl
    · rw [filter_cons_of_neg hp, if_neg hp]

/-- Lists that correspond element by element, and compare alike, sort alike. -/
theorem forall₂_sort {R : α → β → Prop} (c : Comparator α) (d : Comparator β)
    (ha : ∀ a a' b b', R a b → R a' b' → (c.le a a' ↔ d.le b b')) {l' : List β}
    (h : List.Forall₂ R l l') : List.Forall₂ R (c.sort l) (d.sort l') := by
  have hi : ∀ {a b l l'}, R a b → List.Forall₂ R l l' →
      List.Forall₂ R (l.orderedInsert c.le a) (l'.orderedInsert d.le b) := by
    intro a b l l' hab hl
    induction hl with
    | nil => exact .cons hab .nil
    | @cons x y l l' hxy hl ih =>
      rw [orderedInsert_cons, orderedInsert_cons]
      by_cases hle : c.le a x
      · rw [if_pos hle, if_pos ((ha a x b y hab hxy).mp hle)]
        exact .cons hab (.cons hxy hl)
      · rw [if_neg hle, if_neg fun hd => hle ((ha a x b y hab hxy).mpr hd)]
        exact .cons hxy ih
  induction h with
  | nil => exact .nil
  | cons hab _ ih => exact hi hab ih

/-- Sorting commutes with a map that keeps the order. -/
theorem sort_map (c : Comparator α) (d : Comparator β) {f : α → β}
    (ha : ∀ a a', c.le a a' ↔ d.le (f a) (f a')) (l : List α) :
    d.sort (l.map f) = (c.sort l).map f := by
  exact (map_insertionSort c.le d.le f l fun a _ a' _ => ha a a').symm

/-- Where ties are equal, sorting forgets the order. -/
theorem sort_eq_of_perm (c : Comparator α) {l' : List α} (h : l.Perm l')
    (hts : ∀ a ∈ l, ∀ b ∈ l, c.le a b → c.le b a → a = b) : c.sort l = c.sort l' := by
  refine List.Perm.eq_of_pairwise (fun a b ha hb => ?_) (c.sort_pairwise l) (c.sort_pairwise l')
    ((c.sort_perm l).trans (h.trans (c.sort_perm l').symm))
  exact hts a (c.mem_sort.mp ha) b (h.mem_iff.mpr (c.mem_sort.mp hb))

/-! ## Lexicographic order -/

/-- The first comparison that is not zero, or the difference of the lengths. -/
def lexCmp (c : Comparator α) : List α → List α → Int
  | a :: as, b :: bs => if c.cmp a b ≠ 0 then c.cmp a b else lexCmp c as bs
  | as, bs => as.length - bs.length

/-- The order of lists can be read from either side. -/
theorem lexCmp_swap (c : Comparator α) (as bs : List α) :
    c.lexCmp as bs ≤ 0 ↔ 0 ≤ c.lexCmp bs as := by
  induction as generalizing bs with
  | nil =>
    cases bs with
    | nil => simp [lexCmp]
    | cons b bs =>
      simp only [lexCmp, length_nil]
      omega
  | cons a as ih =>
    cases bs with
    | nil =>
      simp only [lexCmp, length_nil]
      omega
    | cons b bs =>
      have hab := c.swap a b
      have hba := c.swap b a
      have := ih bs
      simp only [lexCmp]
      split_ifs <;> omega

/-- The order of lists is transitive. -/
theorem lexCmp_trans (c : Comparator α) (xs ys zs : List α) (hxy : c.lexCmp xs ys ≤ 0)
    (hyz : c.lexCmp ys zs ≤ 0) : c.lexCmp xs zs ≤ 0 := by
  induction xs generalizing ys zs with
  | nil =>
    have hl : ([] : List α).length ≤ zs.length := Nat.zero_le _
    cases zs <;> simp only [lexCmp] <;> omega
  | cons x xs ih =>
    cases ys with
    | nil => simp [lexCmp] at hxy; omega
    | cons y ys =>
      cases zs with
      | nil => simp [lexCmp] at hyz; omega
      | cons z zs =>
        have h₁ := c.swap y x
        have h₂ := c.swap z y
        have h₃ := c.swap z x
        have h₄ := c.trans x y z
        have h₅ := c.trans y z x
        have h₆ := c.trans z x y
        have := ih ys zs
        simp only [lexCmp] at hxy hyz ⊢
        split_ifs at hxy hyz ⊢ <;> omega

/-- Lists by their first difference. -/
def lex (c : Comparator α) : Comparator (List α) := ⟨c.lexCmp, c.lexCmp_swap, c.lexCmp_trans⟩

/-- Numbers by their difference. -/
def byNumber (f : α → ℕ) : Comparator α := difference.comap fun a => (f a : Int)

theorem lex_eq_zero (hf : Function.Injective f) {as bs : List α} :
    (byNumber f).lex.cmp as bs = 0 ↔ as = bs := by
  have hc : ∀ a b, (byNumber f).cmp a b = 0 ↔ a = b := fun a b => by
    rw [← hf.eq_iff]
    simp only [byNumber, comap, difference]
    omega
  change (byNumber f).lexCmp as bs = 0 ↔ as = bs
  induction as generalizing bs with
  | nil => cases bs <;> simp [lexCmp]; omega
  | cons a as ih =>
    cases bs with
    | nil => simp [lexCmp]; omega
    | cons b bs =>
      rw [lexCmp, cons_eq_cons, ← hc, ← ih]
      by_cases h : (byNumber f).cmp a b = 0
      · simp [h]
      · simp [h]

theorem lex_neg [LT α] (hf : ∀ a b, a < b ↔ f a < f b) (hi : Function.Injective f)
    {as bs : List α} : (byNumber f).lex.cmp as bs < 0 ↔ as < bs := by
  change (byNumber f).lexCmp as bs < 0 ↔ as < bs
  induction as generalizing bs with
  | nil =>
    cases bs with
    | nil => simp [lexCmp]
    | cons b bs =>
      refine iff_of_true ?_ (nil_lt_cons b bs)
      simp only [lexCmp, length_nil, length_cons]
      omega
  | cons a as ih =>
    cases bs with
    | nil => simp [lexCmp]; omega
    | cons b bs =>
      rw [lexCmp, cons_lt_cons_iff, ← ih, hf, ← hi.eq_iff]
      simp only [byNumber, comap, difference]
      split_ifs <;> omega

end Comparator
end ModelProxy
