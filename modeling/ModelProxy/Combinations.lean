import Mathlib.Algebra.Ring.Nat
import Mathlib.Data.List.Basic
import Mathlib.Data.Nat.Choose.Basic

/-! # Choosing some of a list, one index set after the other

The sets of `count` positions of a list are tried in lexicographic order: from the
first `count` positions, the rightmost index that can grow grows by one and those
after it follow it closely.  The search stops at the first set that is accepted, when
no set is left, or when its bound is spent.  A search with no more sets than its bound that
finds nothing has refused every sublist of that length (`search_complete`).
-/
namespace ModelProxy
open List

/-- The next index list in lexicographic order, below `n`. -/
def nextIndices (n : ℕ) : List ℕ → Option (List ℕ)
  | [] => none
  | i :: rest =>
    match nextIndices n rest with
    | some rest' => some (i :: rest')
    | none =>
      if i = n - (rest.length + 1) then none
      else some (List.range' (i + 1) (rest.length + 1))

/-- The elements at these positions. -/
def pick {α : Type} (l : List α) (indices : List ℕ) : List α := indices.filterMap (l[·]?)

/-- Try index lists from this one on, at most `bound` of them. -/
def searchIndices {α : Type} (accept : List α → Bool) (l : List α) : ℕ → List ℕ → Option (List α)
  | 0, _ => none
  | bound + 1, indices =>
    if accept (pick l indices) then some (pick l indices)
    else
      match nextIndices l.length indices with
      | none => none
      | some next => searchIndices accept l bound next

/-! ### Increasing index lists -/

/-- Increasing indices from `lo` on, below `n`. -/
def Increasing (n : ℕ) : ℕ → List ℕ → Prop
  | _, [] => True
  | lo, i :: rest => lo ≤ i ∧ i < n ∧ Increasing n (i + 1) rest

/-- No later in lexicographic order. -/
def LexLe : List ℕ → List ℕ → Prop
  | [], _ => True
  | _ :: _, [] => False
  | i :: I, k :: K => i < k ∨ i = k ∧ LexLe I K

variable {n lo bound count : ℕ}

theorem Increasing.mono {lo' : ℕ} (hlo : lo' ≤ lo) : ∀ {I : List ℕ},
    Increasing n lo I → Increasing n lo' I
  | [], _ => trivial
  | _ :: _, ⟨hi, hn, hr⟩ => ⟨le_trans hlo hi, hn, hr⟩

/-- The last index is below `n`, so the first leaves room for the others. -/
theorem Increasing.room : ∀ {lo i : ℕ} {I : List ℕ},
    Increasing n lo (i :: I) → i + I.length < n
  | _, i, [], ⟨_, hn, _⟩ => hn
  | _, i, j :: I, ⟨_, _, hr⟩ => by
    have hrm := hr.room
    have hle : i + 1 ≤ j := hr.1
    simp only [length_cons]
    omega

theorem increasing_range' : ∀ {lo len : ℕ}, lo + len ≤ n →
    Increasing n lo (range' lo len)
  | _, 0, _ => trivial
  | lo, len + 1, h => by
    exact ⟨le_refl lo, by omega, increasing_range' (by omega)⟩

/-- Consecutive indices come first. -/
theorem range'_lexLe : ∀ {lo : ℕ} {K : List ℕ}, Increasing n lo K →
    LexLe (range' lo K.length) K
  | _, [], _ => trivial
  | lo, k :: K, ⟨hk, _, hr⟩ => by
    rcases lt_or_eq_of_le hk with hlt | rfl
    · exact .inl hlt
    · exact .inr ⟨rfl, range'_lexLe hr⟩

/-- The next index set is of the same size. -/
theorem nextIndices_spec : ∀ {lo : ℕ} {I J : List ℕ}, Increasing n lo I →
    nextIndices n I = some J → Increasing n lo J ∧ J.length = I.length
  | _, [], _, _, h => by simp [nextIndices] at h
  | lo, i :: rest, J, hI, h => by
    obtain ⟨hlo, hn, hr⟩ := hI
    simp only [nextIndices] at h
    split at h
    next rest' hnx =>
      cases h
      obtain ⟨hi, hl⟩ := nextIndices_spec hr hnx
      exact ⟨⟨hlo, hn, hi⟩, by simp [hl]⟩
    next =>
    split at h
    · cases h
    next hm =>
    cases h
    have hI : Increasing n lo (i :: rest) := ⟨hlo, hn, hr⟩
    have hrm := hI.room
    refine ⟨(increasing_range' ?_).mono (by omega), by simp⟩
    omega

/-- **The next index list is the least one after.** -/
theorem nextIndices_least : ∀ {lo : ℕ} {I K : List ℕ}, Increasing n lo I →
    Increasing n lo K → K.length = I.length → LexLe I K →
      K = I ∨ ∃ J, nextIndices n I = some J ∧ LexLe J K
  | _, [], K, _, _, hl, _ => .inl (length_eq_zero_iff.mp hl)
  | lo, i :: I, [], _, _, hl, _ => by simp at hl
  | lo, i :: I, k :: K, ⟨hlo, hn, hI⟩, hK, hl, hle => by
    have hl' : K.length = I.length := Nat.succ.inj hl
    rcases hle with hlt | ⟨rfl, hle⟩
    · -- a later first index: whatever follows is later
      right
      simp only [nextIndices]
      cases hnx : nextIndices n I with
      | some J => exact ⟨i :: J, rfl, .inl hlt⟩
      | none =>
        have hrm := hK.room
        rw [if_neg (by omega)]
        refine ⟨_, rfl, ?_⟩
        have hf : Increasing n (i + 1) (k :: K) := ⟨hlt, hK.2.1, hK.2.2⟩
        rw [← hl']
        exact range'_lexLe hf
    · rcases nextIndices_least hI hK.2.2 hl' hle with rfl | ⟨J, hnx, hJ⟩
      · exact .inl rfl
      · exact .inr ⟨i :: J, by simp only [nextIndices, hnx], .inr ⟨rfl, hJ⟩⟩

/-- How many index lists below `n` come no earlier. -/
def setsFrom (n : ℕ) : List ℕ → ℕ
  | [] => 1
  | i :: rest => setsFrom n rest + (n - (i + 1)).choose (rest.length + 1)

theorem setsFrom_range' : ∀ {lo len : ℕ}, lo + len ≤ n →
    setsFrom n (range' lo len) = (n - lo).choose len
  | _, 0, _ => (Nat.choose_zero_right _).symm
  | lo, len + 1, h => by
    have hlo : n - lo = n - (lo + 1) + 1 := by omega
    rw [range'_succ, setsFrom, setsFrom_range' (by omega), length_range', hlo,
      Nat.choose_succ_succ']

/-- **The next index list leaves one set less.** -/
theorem setsFrom_next : ∀ {lo : ℕ} {I : List ℕ}, Increasing n lo I →
    setsFrom n I = ((nextIndices n I).map (setsFrom n)).getD 0 + 1
  | _, [], _ => rfl
  | lo, i :: rest, hI => by
    have hr := setsFrom_next hI.2.2
    have hrm := hI.room
    simp only [setsFrom, nextIndices, hr]
    cases hnx : nextIndices n rest with
    | some rest' =>
      have hl := (nextIndices_spec hI.2.2 hnx).2
      simp only [Option.map_some, Option.getD_some, setsFrom, hl]
      omega
    | none =>
      by_cases hla : i = n - (rest.length + 1)
      · rw [if_pos hla, Nat.choose_eq_zero_of_lt (by omega)]
      · rw [if_neg hla, Option.map_some, Option.getD_some, setsFrom_range' (by omega)]
        exact add_comm _ _

/-! ### Sublists -/

section Pick
variable {α : Type}

/-- Increasing positions pick a sublist. -/
theorem pick_sublist (l : List α) : ∀ {lo : ℕ} {I : List ℕ}, Increasing l.length lo I →
    (pick l I).Sublist (l.drop lo) ∧ (pick l I).length = I.length
  | _, [], _ => ⟨nil_sublist _, rfl⟩
  | lo, i :: I, ⟨hlo, hn, hI⟩ => by
    obtain ⟨hs, hl⟩ := pick_sublist l hI
    have hpk : pick l (i :: I) = l[i] :: pick l I := by
      simp [pick, getElem?_eq_getElem hn]
    rw [hpk]
    refine ⟨?_, by simp [hl]⟩
    have hdr : (l.drop i).Sublist (l.drop lo) := drop_sublist_drop_left l hlo
    refine List.Sublist.trans ?_ hdr
    rw [drop_eq_getElem_cons hn]
    exact hs.cons_cons _

/-- Every sublist is picked by some increasing positions. -/
theorem exists_pick {K l : List α} (h : K.Sublist l) : ∀ pre : List α,
    ∃ I, Increasing (pre ++ l).length pre.length I ∧ pick (pre ++ l) I = K := by
  induction h with
  | slnil => exact fun _ => ⟨[], trivial, rfl⟩
  | cons a h ih =>
    intro pre
    obtain ⟨I, hI, hpk⟩ := ih (pre ++ [a])
    rw [append_assoc, singleton_append] at hI hpk
    exact ⟨I, hI.mono (by simp), hpk⟩
  | cons_cons a h ih =>
    intro pre
    obtain ⟨I, hI, hpk⟩ := ih (pre ++ [a])
    rw [append_assoc, singleton_append] at hI hpk
    have hlo : (pre ++ [a]).length = pre.length + 1 := by simp
    rw [hlo] at hI
    refine ⟨pre.length :: I, ⟨le_refl _, by simp, hI⟩, ?_⟩
    simp only [pick, filterMap_cons] at hpk ⊢
    simp [hpk]

end Pick

/-! ### The search -/

section Search
variable {α : Type} {acc : List α → Bool} {l : List α}

/-- What is found is an accepted sublist. -/
theorem searchIndices_sound : ∀ {bound : ℕ} {I : List ℕ} {K : List α},
    Increasing l.length lo I → searchIndices acc l bound I = some K →
      acc K = true ∧ K.Sublist l ∧ K.length = I.length
  | 0, _, _, _, h => by simp [searchIndices] at h
  | bound + 1, I, K, hI, h => by
    simp only [searchIndices] at h
    split at h
    next ha =>
      cases h
      obtain ⟨hs, hl⟩ := pick_sublist l hI
      exact ⟨ha, hs.trans (drop_sublist _ _), hl⟩
    next =>
    split at h
    · cases h
    next J hnx =>
      obtain ⟨hJ, hl⟩ := nextIndices_spec hI hnx
      obtain ⟨ha, hs, hK⟩ := searchIndices_sound hJ h
      exact ⟨ha, hs, hK.trans hl⟩

/-- Where nothing is found, no later set is accepted. -/
theorem searchIndices_complete {K : List ℕ} (hK : Increasing l.length lo K) :
    ∀ {bound : ℕ} {I : List ℕ}, Increasing l.length lo I → setsFrom l.length I ≤ bound →
      searchIndices acc l bound I = none → K.length = I.length → LexLe I K →
        acc (pick l K) = false
  | 0, I, hI, hb, _, _, _ => by
    rw [setsFrom_next hI] at hb
    omega
  | bound + 1, I, hI, hb, h, hl, hle => by
    simp only [searchIndices] at h
    split at h
    · cases h
    next hr =>
    rcases nextIndices_least hI hK hl hle with rfl | ⟨J, hnx, hJK⟩
    · exact Bool.not_eq_true _ ▸ hr
    · obtain ⟨hJ, hlJ⟩ := nextIndices_spec hI hnx
      rw [setsFrom_next hI, hnx] at hb
      rw [hnx] at h
      exact searchIndices_complete hK hJ (Nat.le_of_succ_le_succ hb) h (hl.trans hlJ.symm) hJK

/-- The search for `count` elements, at most `bound` sets of them. -/
def search (bound : ℕ) (accept : List α → Bool) (count : ℕ) (l : List α) : Option (List α) :=
  searchIndices accept l bound (List.range count)

theorem increasing_range (hc : count ≤ n) : Increasing n 0 (range count) := by
  rw [range_eq_range']
  exact increasing_range' (by omega)

theorem search_sound (hc : count ≤ l.length) {K : List α} (h : search bound acc count l = some K) :
    acc K = true ∧ K.Sublist l ∧ K.length = count := by
  obtain ⟨ha, hs, hl⟩ := searchIndices_sound (increasing_range hc) h
  exact ⟨ha, hs, by simpa using hl⟩

/-- **A search that may try every set and finds nothing has refused every sublist.** -/
theorem search_complete (hb : l.length.choose count ≤ bound) (h : search bound acc count l = none)
    {K : List α} (hK : K.Sublist l) (hl : K.length = count) : acc K = false := by
  obtain ⟨I, hI, rfl⟩ := exists_pick hK []
  have hc : I.length = count := (pick_sublist l hI).2.symm.trans hl
  have hle : count ≤ l.length := hl ▸ hK.length_le
  refine searchIndices_complete hI (increasing_range hle) ?_ h (by simp [hc]) ?_
  · rw [range_eq_range', setsFrom_range' (by simpa using hle)]
    exact hb
  · rw [range_eq_range', ← hc]
    exact range'_lexLe hI

end Search

end ModelProxy
