import Mathlib.Data.Finset.Card
import Mathlib.Data.List.GetD

/-! # Giving each list a value of its own

Lists are served one after the other.  A list takes its first free value; when none is
free, one that an earlier list holds is taken over if that list can move to another of
its own values, recursively (augmenting paths).  Every value is tried once per list
served, so recursing as deep as there are values is enough.

When a list cannot be served, the values seen form a set that is too small for the lists
that need it: no choice of distinct values exists for the lists so far.
-/
namespace ModelProxy
open Finset

/-- Which list holds a value, and the value a list was given. -/
structure Matching (ν : Type) where
  holderOf : ν → Option ℕ
  assigned : ℕ → Option ν

variable {fuel : ℕ}

namespace Matching
variable {ν : Type} [DecidableEq ν]

/-- Nothing is matched. -/
def empty : Matching ν := ⟨fun _ => none, fun _ => none⟩

/-- Let list `index` hold `value`. -/
def give (m : Matching ν) (value : ν) (index : ℕ) : Matching ν where
  holderOf := Function.update m.holderOf value (some index)
  assigned := Function.update m.assigned index (some value)

/-- The values of one list in turn: a free one is taken; a held one is taken over once
`again` has moved its holder. -/
def tryValues (again : ℕ → Finset ν → Matching ν → Bool × Finset ν × Matching ν) (index : ℕ) :
    List ν → Finset ν → Matching ν → Bool × Finset ν × Matching ν
  | [], seen, m => (false, seen, m)
  | value :: rest, seen, m =>
    if value ∈ seen then tryValues again index rest seen m
    else
      match m.holderOf value with
      | none => (true, insert value seen, m.give value index)
      | some holder =>
        let moved := again holder (insert value seen) m
        if moved.1 then (true, moved.2.1, moved.2.2.give value index)
        else tryValues again index rest moved.2.1 moved.2.2

/-- Find list `index` a value, moving holders at most `fuel` deep. -/
def assign (lists : List (List ν)) : ℕ → ℕ → Finset ν → Matching ν → Bool × Finset ν × Matching ν
  | 0, _, seen, m => (false, seen, m)
  | fuel + 1, index, seen, m =>
    tryValues (assign lists fuel) index (lists.getD index []) seen m

/-- Serve one list: its first free value, or an augmenting path. -/
def serve (lists : List (List ν)) (index : ℕ) (m : Matching ν) : Option (Matching ν) :=
  match (lists.getD index []).find? (fun value => (m.holderOf value).isNone) with
  | some free => some (m.give free index)
  | none =>
    let found := assign lists (lists.flatten.length + 1) index ∅ m
    if found.1 then some found.2.2 else none

/-- Serve `count` lists from `index` on; the first that cannot be served ends the run. -/
def serveAll (lists : List (List ν)) : ℕ → ℕ → Matching ν → Except ℕ (Matching ν)
  | 0, _, m => .ok m
  | count + 1, index, m =>
    match serve lists index m with
    | some m' => serveAll lists count (index + 1) m'
    | none => .error index

/-- The value of each list, or the first list left without. -/
def choose (lists : List (List ν)) : Except ℕ (List ν) :=
  (serveAll lists lists.length 0 empty).map
    fun m => (List.range lists.length).filterMap m.assigned

/-! ### Matchings with open places -/

/-- The lists `D` hold one of their values each, and outside the values `H` nobody else
holds anything. -/
structure Matched (lists : List (List ν)) (D : Finset ℕ) (H : Finset ν) (m : Matching ν) :
    Prop where
  place : ∀ i ∈ D, ∃ n, m.assigned i = some n ∧ n ∈ lists.getD i [] ∧
    m.holderOf n = some i ∧ n ∉ H
  holder : ∀ n ∉ H, ∀ i, m.holderOf n = some i → i ∈ D ∧ m.assigned i = some n

variable {ls : List (List ν)} {D : Finset ℕ} {H : Finset ν} {m : Matching ν}

variable {value : ν} {index : ℕ}

/-- Taking the value of `holder` away leaves a hole there. -/
theorem Matched.open {holder : ℕ} (hm : Matched ls D H m) (hv : value ∉ H)
    (hh : m.holderOf value = some holder) :
    Matched ls (D.erase holder) (insert value H) m where
  place i hi := by
    obtain ⟨hne, hi⟩ := mem_erase.mp hi
    obtain ⟨n, hn, hme, hl, ho⟩ := hm.place i hi
    refine ⟨n, hn, hme, hl, fun hin => ?_⟩
    rcases mem_insert.mp hin with rfl | hin
    · exact hne (Option.some.inj (hl.symm.trans hh))
    · exact ho hin
  holder n hn i hi := by
    rw [mem_insert, not_or] at hn
    obtain ⟨hme, hp⟩ := hm.holder n hn.2 i hi
    refine ⟨mem_erase.mpr ⟨?_, hme⟩, hp⟩
    rintro rfl
    exact hn.1 (Option.some.inj (hp.symm.trans (hm.holder value hv i hh).2))

/-- Filling a hole with a new list. -/
theorem Matched.give (hm : Matched ls D (insert value H) m) (hv : value ∉ H)
    (hx : index ∉ D) (hme : value ∈ ls.getD index []) :
    Matched ls (insert index D) H (m.give value index) where
  place i hi := by
    rcases mem_insert.mp hi with rfl | hi
    · exact ⟨value, by simp [Matching.give], hme, by simp [Matching.give], hv⟩
    · obtain ⟨n, hn, hlt, hh, ho⟩ := hm.place i hi
      rw [mem_insert, not_or] at ho
      have hne : i ≠ index := fun h => hx (h ▸ hi)
      exact ⟨n, by simp [Matching.give, hne, hn], hlt, by simp [Matching.give, ho.1, hh], ho.2⟩
  holder n hn i hi := by
    by_cases hne : n = value
    · subst hne
      simp only [Matching.give, Function.update_self, Option.some.injEq] at hi
      subst hi
      exact ⟨mem_insert_self _ _, by simp [Matching.give]⟩
    · simp only [Matching.give, Function.update_of_ne hne] at hi
      obtain ⟨hD, hp⟩ := hm.holder n (by simp [hne, hn]) i hi
      have hin : i ≠ index := fun h => hx (h ▸ hD)
      exact ⟨mem_insert_of_mem hD, by simp [Matching.give, hin, hp]⟩

/-- A free value is a hole already. -/
theorem Matched.open_free (hm : Matched ls D H m) (hfr : m.holderOf value = none) :
    Matched ls D (insert value H) m where
  place i hi := by
    obtain ⟨n, hn, hme, hh, ho⟩ := hm.place i hi
    refine ⟨n, hn, hme, hh, fun hin => ?_⟩
    rcases mem_insert.mp hin with rfl | hin
    · cases hfr.symm.trans hh
    · exact ho hin
  holder n hn := hm.holder n (fun h => hn (mem_insert_of_mem h))

/-- Nothing was found: the values seen since are all held, by lists all of whose values
have been seen. -/
structure Closed (lists : List (List ν)) (m : Matching ν) (seen seen' : Finset ν) : Prop where
  subset : seen ⊆ seen'
  held : ∀ n ∈ seen', n ∉ seen → ∃ h, m.holderOf n = some h ∧ ∀ k ∈ lists.getD h [], k ∈ seen'

omit [DecidableEq ν] in
theorem Closed.refl (m : Matching ν) (seen : Finset ν) : Closed ls m seen seen :=
  ⟨Finset.Subset.refl _, fun _ hin ho => absurd hin ho⟩

theorem Closed.trans {s₁ s₂ s₃ : Finset ν} (h₁ : Closed ls m s₁ s₂) (h₂ : Closed ls m s₂ s₃) :
    Closed ls m s₁ s₃ where
  subset := h₁.subset.trans h₂.subset
  held n hn ho := by
    by_cases hm : n ∈ s₂
    · obtain ⟨h, hh, ha⟩ := h₁.held n hm ho
      exact ⟨h, hh, fun k hk => h₂.subset (ha k hk)⟩
    · exact h₂.held n hn hm

/-- What finding list `index` a value comes to. -/
structure Outcome (lists : List (List ν)) (D : Finset ℕ) (H : Finset ν) (index : ℕ)
    (values : List ν) (seen : Finset ν) (m : Matching ν)
    (result : Bool × Finset ν × Matching ν) : Prop where
  found : result.1 = true → Matched lists (insert index D) H result.2.2
  kept : result.1 = false → result.2.2 = m ∧ Closed lists m seen result.2.1 ∧
    ∀ k ∈ values, k ∈ result.2.1

/-- The values not seen yet. -/
def unseen (lists : List (List ν)) (seen : Finset ν) : Finset ν := lists.flatten.toFinset \ seen

variable {seen : Finset ν}

theorem card_unseen_insert (hm : value ∈ ls.flatten) (hn : value ∉ seen) :
    (unseen ls (insert value seen)).card < (unseen ls seen).card := by
  refine card_lt_card (ssubset_iff_of_subset ?_ |>.mpr ⟨value, ?_, ?_⟩)
  · exact sdiff_subset_sdiff (Finset.Subset.refl _) (subset_insert _ _)
  · simp only [unseen, mem_sdiff, List.mem_toFinset]
    exact ⟨hm, hn⟩
  · simp [unseen]

theorem card_unseen_mono (ls : List (List ν)) {seen' : Finset ν} (h : seen ⊆ seen') :
    (unseen ls seen').card ≤ (unseen ls seen).card :=
  card_le_card (sdiff_subset_sdiff (Finset.Subset.refl _) h)

omit [DecidableEq ν] in
theorem mem_flatten_of_getD (h : value ∈ ls.getD index []) : value ∈ ls.flatten := by
  rw [List.getD_eq_getElem?_getD] at h
  cases hlt : ls[index]? with
  | none => simp [hlt] at h
  | some list =>
    simp only [hlt, Option.getD_some] at h
    exact List.mem_flatten.mpr ⟨list, List.mem_of_getElem? hlt, h⟩

/-- The loop over the values of one list, given what moving a holder comes to. -/
theorem tryValues_outcome {again : ℕ → Finset ν → Matching ν → Bool × Finset ν × Matching ν}
    (hi : index ∉ D)
    (ha : ∀ {D' : Finset ℕ} {H' : Finset ν} {holder : ℕ} {seen : Finset ν}, holder ∉ D' →
      Matched ls D' H' m → H' ⊆ seen → (unseen ls seen).card < fuel →
        Outcome ls D' H' holder (ls.getD holder []) seen m (again holder seen m)) :
    ∀ (vs : List ν) (seen : Finset ν), (∀ k ∈ vs, k ∈ ls.getD index []) →
      Matched ls D H m → H ⊆ seen → (unseen ls seen).card < fuel + 1 →
        Outcome ls D H index vs seen m (tryValues again index vs seen m)
  | [], seen, _, hm, _, _ => ⟨by simp [tryValues], fun _ => ⟨rfl, Closed.refl m seen, by simp⟩⟩
  | value :: rest, seen, hs, hm, hH, hfu => by
    have hr := fun k hk => hs k (List.mem_cons_of_mem _ hk)
    have hv := hs value List.mem_cons_self
    by_cases hse : value ∈ seen
    · obtain ⟨hfd, hkp⟩ :=
        tryValues_outcome hi ha rest seen hr hm hH hfu
      simp only [tryValues, hse, if_true]
      refine ⟨hfd, fun hno => ?_⟩
      obtain ⟨hsm, hcl, hl⟩ := hkp hno
      refine ⟨hsm, hcl, fun k hk => ?_⟩
      rcases List.mem_cons.mp hk with rfl | hk
      · exact hcl.subset hse
      · exact hl k hk
    · have ho : value ∉ H := fun h => hse (hH h)
      have hcr := card_unseen_insert (mem_flatten_of_getD hv) hse
      simp only [tryValues, hse, if_false]
      cases hh : m.holderOf value with
      | none =>
        refine ⟨fun _ => ?_, fun h => by simp at h⟩
        exact (hm.open_free hh).give ho hi hv
      | some holder =>
        -- the holder gives its value up and looks for another one
        have hho := (hm.holder value ho holder hh).1
        have hmo := ha (notMem_erase holder D) (hm.open ho hh)
          (insert_subset_insert value hH) (by omega)
        dsimp only
        generalize again holder (insert value seen) m = moved at hmo ⊢
        obtain ⟨ok, seen', m'⟩ := moved
        cases ok with
        | true =>
          have hD : Matched ls D (insert value H) m' := by
            have := hmo.found rfl
            rwa [insert_erase hho] at this
          exact ⟨fun _ => hD.give ho hi hv, fun h => by simp at h⟩
        | false =>
          obtain ⟨hsm, hcl, hl⟩ := hmo.kept rfl
          replace hsm := hsm.symm
          subst hsm
          have hsp : Closed ls m seen seen' := by
            refine ⟨(subset_insert _ _).trans hcl.subset, fun n hn hw => ?_⟩
            by_cases hne : n = value
            · exact ⟨holder, hne ▸ hh, hl⟩
            · exact hcl.held n hn (by simp [hne, hw])
          have hle : (unseen ls seen').card ≤ _ := card_unseen_mono ls hcl.subset
          obtain ⟨hfd, hkp⟩ := tryValues_outcome hi ha rest seen' hr hm
            (hH.trans hsp.subset) (by omega)
          refine ⟨hfd, fun hno => ?_⟩
          obtain ⟨hsm, hcl', ha'⟩ := hkp hno
          refine ⟨hsm, hsp.trans hcl', fun k hk => ?_⟩
          rcases List.mem_cons.mp hk with rfl | hk
          · exact hcl'.subset (hcl.subset (mem_insert_self _ _))
          · exact ha' k hk

/-- As deep as there are unseen values is deep enough. -/
theorem assign_outcome : ∀ {fuel : ℕ} {D : Finset ℕ} {H : Finset ν} {index : ℕ} {seen : Finset ν}
    {m : Matching ν}, index ∉ D → Matched ls D H m → H ⊆ seen → (unseen ls seen).card < fuel →
        Outcome ls D H index (ls.getD index []) seen m (assign ls fuel index seen m)
  | 0, _, _, _, _, _, _, _, _, hfu => absurd hfu (Nat.not_lt_zero _)
  | _ + 1, _, _, _, seen, _, hi, hm, hH, hfu =>
    tryValues_outcome hi (fun h₁ h₂ h₃ h₄ => assign_outcome h₁ h₂ h₃ h₄) _ seen
      (fun _ hk => hk) hm hH hfu

/-! ### Depth enough -/

section Depth
variable {again again' : ℕ → Finset ν → Matching ν → Bool × Finset ν × Matching ν}

/-- A search only adds to what it has seen. -/
theorem subset_tryValues (ha : ∀ i seen m, seen ⊆ (again i seen m).2.1) (vs : List ν)
    (seen : Finset ν) (m : Matching ν) : seen ⊆ (tryValues again index vs seen m).2.1 := by
  induction vs generalizing seen m with
  | nil => exact Finset.Subset.refl _
  | cons value rest ih =>
    rw [tryValues]
    by_cases hse : value ∈ seen
    · rw [if_pos hse]
      exact ih seen m
    rw [if_neg hse]
    have hi := subset_insert value seen
    cases m.holderOf value with
    | none => exact hi
    | some holder =>
      have hm := hi.trans (ha holder (insert value seen) m)
      dsimp only
      split
      · exact hm
      · exact hm.trans (ih _ _)

theorem subset_assign (ls : List (List ν)) (fuel index : ℕ) (seen : Finset ν)
    (m : Matching ν) : seen ⊆ (assign ls fuel index seen m).2.1 := by
  induction fuel generalizing index seen m with
  | zero => exact Finset.Subset.refl _
  | succ fuel ih => exact subset_tryValues ih _ seen m

/-- Fuel beyond the unseen values changes nothing. -/
theorem tryValues_congr (hg : ∀ i seen m, seen ⊆ (again' i seen m).2.1)
    (ha : ∀ i seen m, (unseen ls seen).card < fuel → again i seen m = again' i seen m)
    (vs : List ν) (hvl : ∀ k ∈ vs, k ∈ ls.flatten) (seen : Finset ν) (m : Matching ν)
    (hfu : (unseen ls seen).card < fuel + 1) :
    tryValues again index vs seen m = tryValues again' index vs seen m := by
  induction vs generalizing seen m with
  | nil => rfl
  | cons value rest ih =>
    have ih := ih fun k hk => hvl k (List.mem_cons_of_mem _ hk)
    rw [tryValues, tryValues]
    by_cases hse : value ∈ seen
    · rw [if_pos hse, if_pos hse]
      exact ih seen m hfu
    rw [if_neg hse, if_neg hse]
    cases m.holderOf value with
    | none => rfl
    | some holder =>
      -- trying `value` leaves one value less to see
      have hl := card_unseen_insert (hvl value List.mem_cons_self) hse
      have hgw := card_unseen_mono ls (hg holder (insert value seen) m)
      dsimp only
      rw [ha holder _ m (by omega), ih _ _ (by omega)]

end Depth

/-- One level more changes nothing. -/
theorem assign_succ (hfu : (unseen ls seen).card < fuel) (index : ℕ) (m : Matching ν) :
    assign ls fuel index seen m = assign ls (fuel + 1) index seen m := by
  induction fuel generalizing index seen m with
  | zero => exact absurd hfu (Nat.not_lt_zero _)
  | succ fuel ih =>
    exact tryValues_congr (subset_assign ls (fuel + 1)) (fun i _ m h => ih h i m) _
      (fun _ => mem_flatten_of_getD) seen m hfu

theorem card_unseen_le (ls : List (List ν)) (seen : Finset ν) :
    (unseen ls seen).card ≤ ls.flatten.length :=
  (card_le_card sdiff_subset).trans (List.toFinset_card_le _)

/-- **Moving holders as deep as there are values is as deep as it gets.** -/
theorem assign_enough (hfu : ls.flatten.length < fuel) :
    assign ls fuel = assign ls (ls.flatten.length + 1) := by
  induction fuel, hfu using Nat.le_induction with
  | base => rfl
  | succ fuel hle ih =>
    rw [← ih]
    funext index seen m
    exact (assign_succ ((card_unseen_le ls seen).trans_lt hle) index m).symm

/-! ### Distinct representatives -/

/-- One value of each list, all different. -/
structure Represents (ns : List ν) (lists : List (List ν)) : Prop where
  nodup : ns.Nodup
  mem : List.Forall₂ (· ∈ ·) ns lists

/-- The lists have a system of distinct representatives. -/
def Distinct (lists : List (List ν)) : Prop := ∃ ns, Represents ns lists

omit [DecidableEq ν] in
theorem Represents.getElem? {ns : List ν} (h : Represents ns ls) {j : ℕ}
    (hj : j < ls.length) : ∃ n, ns[j]? = some n ∧ n ∈ ls.getD j [] := by
  have hl : ns.length = ls.length := h.mem.length_eq
  have hns : j < ns.length := hl ▸ hj
  refine ⟨ns[j], List.getElem?_eq_getElem hns, ?_⟩
  rw [List.getD_eq_getElem _ _ hj]
  exact List.forall₂_iff_get.mp h.mem |>.2 j hns hj

omit [DecidableEq ν] in
/-- Fewer lists have representatives if more do. -/
theorem Distinct.take (h : Distinct ls) (count : ℕ) : Distinct (ls.take count) := by
  obtain ⟨ns, hn, hm⟩ := h
  exact ⟨ns.take count, hn.sublist (List.take_sublist _ _), List.forall₂_take count hm⟩

/-- **A closed set of values is too small**: the lists of its holders and one more have no
other values. -/
theorem not_distinct_of_closed (hi : index < ls.length) (hm : Matched ls (Finset.range index) ∅ m)
    (hcl : Closed ls m ∅ seen) (ha : ∀ k ∈ ls.getD index [], k ∈ seen) :
    ¬ Distinct (ls.take (index + 1)) := by
  rintro ⟨ns, hns⟩
  let ho := seen.image fun n => (m.holderOf n).getD 0
  have hhd : ∀ n ∈ seen, ∃ h, m.holderOf n = some h ∧ h < index ∧ m.assigned h = some n ∧
      ∀ k ∈ ls.getD h [], k ∈ seen := by
    intro n hn
    obtain ⟨h, hh, hs⟩ := hcl.held n hn (notMem_empty n)
    obtain ⟨hD, hp⟩ := hm.holder n (notMem_empty n) h hh
    exact ⟨h, hh, mem_range.mp hD, hp, hs⟩
  have hcr : ho.card = seen.card := by
    refine card_image_of_injOn fun n hn n' hn' heq => ?_
    obtain ⟨h, hh, -, hp, -⟩ := hhd n hn
    obtain ⟨h', hh', -, hp', -⟩ := hhd n' hn'
    simp only [hh, hh', Option.getD_some] at heq
    subst heq
    exact Option.some.inj (hp.symm.trans hp')
  have ht : index ∉ ho := by
    intro hin
    obtain ⟨n, hn, heq⟩ := mem_image.mp hin
    obtain ⟨h, hh, hlt, -⟩ := hhd n hn
    simp only [hh, Option.getD_some] at heq
    omega
  -- every list of `insert index holders` has its values in `seen`
  have hnee : ∀ j ∈ insert index ho, ∃ n ∈ seen, ns[j]? = some n := by
    intro j hj
    have hs : j < index + 1 ∧ ∀ k ∈ ls.getD j [], k ∈ seen := by
      rcases mem_insert.mp hj with rfl | hj
      · exact ⟨Nat.lt_succ_self _, ha⟩
      · obtain ⟨n, hn, heq⟩ := mem_image.mp hj
        obtain ⟨h, hh, hlt, -, hs⟩ := hhd n hn
        simp only [hh, Option.getD_some] at heq
        subst heq
        exact ⟨by omega, hs⟩
    have hl : j < (ls.take (index + 1)).length := by
      rw [List.length_take]
      omega
    obtain ⟨n, hn, hme⟩ := hns.getElem? hl
    rw [List.getD_eq_getElem?_getD, List.getElem?_take_of_lt hs.1,
      ← List.getD_eq_getElem?_getD] at hme
    exact ⟨n, hs.2 n hme, hn⟩
  have hle : (seen.image some).card < (insert index ho).card := by
    have := card_image_le (s := seen) (f := some)
    rw [card_insert_of_notMem ht, hcr]
    omega
  obtain ⟨j, hj, k, hk, hne, heq⟩ :=
    exists_ne_map_eq_of_card_lt_of_maps_to (f := fun j => ns[j]?) hle fun j hj => by
      obtain ⟨n, hn, hg⟩ := hnee j hj
      simp only [hg, coe_image]
      exact ⟨n, hn, rfl⟩
  obtain ⟨n, -, hg⟩ := hnee j hj
  obtain ⟨hlt, -⟩ := List.getElem?_eq_some_iff.mp hg
  exact hne ((List.getElem?_inj hlt hns.nodup).mp heq)

omit [DecidableEq ν] in
/-- A matching of the first lists gives them representatives. -/
theorem Matched.represents {count : ℕ} (hc : count ≤ ls.length)
    (hm : Matched ls (Finset.range count) ∅ m) :
    Represents ((List.range count).filterMap m.assigned) (ls.take count) := by
  have hp : ∀ i, i < count → ∃ n, m.assigned i = some n ∧ n ∈ ls.getD i [] ∧
      m.holderOf n = some i := by
    intro i hi
    obtain ⟨n, hn, hme, hh, -⟩ := hm.place i (mem_range.mpr hi)
    exact ⟨n, hn, hme, hh⟩
  clear hm
  induction count with
  | zero => exact ⟨by simp, by simp⟩
  | succ count ih =>
    obtain ⟨hd, hf⟩ := ih (by omega) (fun i hi => hp i (by omega))
    obtain ⟨n, hn, hme, hh⟩ := hp count (Nat.lt_succ_self _)
    have htk : ls.take (count + 1) = ls.take count ++ [ls.getD count []] := by
      rw [List.take_add_one, List.getElem?_eq_getElem hc, List.getD_eq_getElem _ _ hc]
      rfl
    rw [htk, List.range_succ, List.filterMap_append]
    simp only [List.filterMap_cons, List.filterMap_nil, hn]
    refine ⟨List.nodup_append.mpr ⟨hd, List.nodup_singleton n, ?_⟩, ?_⟩
    · intro a ha b hb hab
      rw [List.mem_singleton] at hb
      subst hb hab
      obtain ⟨i, hi, hs⟩ := List.mem_filterMap.mp ha
      have hlt := List.mem_range.mp hi
      obtain ⟨n', hn', -, hh'⟩ := hp i (by omega)
      cases hn'.symm.trans hs
      have := Option.some.inj (hh'.symm.trans hh)
      omega
    · exact List.rel_append hf (.cons hme .nil)

/-- One more index is matched, or no choice is distinct. -/
theorem serve_spec (hi : index < ls.length) (hm : Matched ls (Finset.range index) ∅ m) :
    match serve ls index m with
    | some m' => Matched ls (Finset.range (index + 1)) ∅ m'
    | none => ¬ Distinct (ls.take (index + 1)) := by
  have hn : index ∉ Finset.range index := notMem_range_self
  unfold serve
  cases hfr : (ls.getD index []).find? (fun value => (m.holderOf value).isNone) with
  | some value =>
    have hno : m.holderOf value = none := by simpa using List.find?_some hfr
    have hg := (hm.open_free hno).give (notMem_empty value) hn
      (List.mem_of_find?_eq_some hfr)
    simpa only [range_add_one] using hg
  | none =>
    have ho : Outcome ls (Finset.range index) ∅ index (ls.getD index []) ∅ m
        (assign ls (ls.flatten.length + 1) index ∅ m) := by
      exact assign_outcome hn hm (Finset.Subset.refl _) (Nat.lt_succ_of_le (card_unseen_le _ _))
    cases hfd : (assign ls (ls.flatten.length + 1) index ∅ m).1 with
    | true =>
      simp only [hfd, if_true]
      simpa only [range_add_one] using ho.found hfd
    | false =>
      simp only [hfd, Bool.false_eq_true, if_false]
      obtain ⟨-, hcl, ha⟩ := ho.kept hfd
      exact not_distinct_of_closed hi hm hcl ha

/-- All indices are matched, or no choice is distinct. -/
theorem serveAll_spec : ∀ {count index : ℕ} {m : Matching ν}, index + count = ls.length →
    Matched ls (Finset.range index) ∅ m → match serveAll ls count index m with
      | .ok m' => Matched ls (Finset.range ls.length) ∅ m'
      | .error i => i < ls.length ∧ Distinct (ls.take i) ∧ ¬ Distinct (ls.take (i + 1))
  | 0, index, m, hl, hm => by
    rwa [← hl]
  | count + 1, index, m, hl, hm => by
    have hsc := serve_spec (by omega : index < ls.length) hm
    simp only [serveAll]
    cases hs : serve ls index m with
    | some m' =>
      rw [hs] at hsc
      exact serveAll_spec (by omega) hsc
    | none =>
      rw [hs] at hsc
      exact ⟨by omega, ⟨_, hm.represents (by omega)⟩, hsc⟩

/-- **Either every list gets a value of its own, or the first list left without is the
first that cannot have one.** -/
theorem choose_spec (ls : List (List ν)) : match choose ls with
    | .ok ns => Represents ns ls
    | .error i => i < ls.length ∧ Distinct (ls.take i) ∧ ¬ Distinct (ls.take (i + 1)) := by
  have he : Matched ls (Finset.range 0) ∅ (empty : Matching ν) :=
    ⟨by simp, by simp [empty]⟩
  have hsc := serveAll_spec (Nat.zero_add ls.length) he
  unfold choose
  cases hs : serveAll ls ls.length 0 empty with
  | ok m =>
    rw [hs] at hsc
    simpa only [Except.map, List.take_length] using hsc.represents (le_refl _)
  | error i =>
    rw [hs] at hsc
    exact hsc

end Matching

end ModelProxy
