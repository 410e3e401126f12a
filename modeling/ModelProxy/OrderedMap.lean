import Mathlib.Data.List.Nodup
import Mathlib.Algebra.BigOperators.Group.List.Basic
import Mathlib.Tactic.Ring

/-! # Finite maps that remember insertion order

The map type of the host language: a key keeps the place of its first insertion
when its value is replaced, a new key goes to the end, and a deleted key leaves
its place.  The entries are a list without repeated keys, so iteration order is
the list order and every lookup is determined by membership.
-/
namespace ModelProxy
open List

/-- A finite map as its entries in insertion order. -/
structure OrderedMap (κ ν : Type) where
  entries : List (κ × ν)
  nodup : (entries.map Prod.fst).Nodup

namespace OrderedMap
variable {κ ν μ : Type} {m n : OrderedMap κ ν} {es : List (κ × ν)} {j k : κ} {zero v : ν}
  {f : ν → ν → ν}

theorem ext (h : m.entries = n.entries) : m = n := by
  cases m; cases n; cases h; rfl

instance [DecidableEq κ] [DecidableEq ν] : DecidableEq (OrderedMap κ ν) := fun m n =>
  decidable_of_iff (m.entries = n.entries) ⟨ext, fun h => h ▸ rfl⟩

/-- The keys in insertion order. -/
def keys (m : OrderedMap κ ν) : List κ := m.entries.map Prod.fst

/-- The values in insertion order. -/
def values (m : OrderedMap κ ν) : List ν := m.entries.map Prod.snd

/-- The map without entries. -/
def empty : OrderedMap κ ν := ⟨[], List.nodup_nil⟩

instance : Inhabited (OrderedMap κ ν) := ⟨empty⟩

variable [DecidableEq κ]

/-- The value an entry list gives a key. -/
def find (k : κ) : List (κ × ν) → Option ν
  | [] => none
  | e :: es => if e.1 = k then some e.2 else find k es

/-- Replace the value of `k`, or append it. -/
def put (k : κ) (v : ν) : List (κ × ν) → List (κ × ν)
  | [] => [(k, v)]
  | e :: es => if e.1 = k then (k, v) :: es else e :: put k v es

/-- The value of a key, if it has one. -/
def get (m : OrderedMap κ ν) (k : κ) : Option ν := find k m.entries

/-- The same keys, with every value mapped. -/
def mapValues {μ : Type} (f : ν → μ) (m : OrderedMap κ ν) : OrderedMap κ μ where
  entries := m.entries.map (fun e => (e.1, f e.2))
  nodup := by simpa [Function.comp_def] using m.nodup

/-- Thread a state through the values, in the order of the keys, replacing each. -/
def accumulate {σ : Type} (f : ν → σ → ν × σ) : List (κ × ν) → σ → List (κ × ν) × σ
  | [], s => ([], s)
  | e :: es, s =>
    let first := f e.2 s
    let rest := accumulate f es first.2
    ((e.1, first.1) :: rest.1, rest.2)

omit [DecidableEq κ] in
theorem accumulate_keys {σ : Type} (f : ν → σ → ν × σ) : ∀ (es : List (κ × ν)) (s : σ),
    (accumulate f es s).1.map Prod.fst = es.map Prod.fst
  | [], _ => rfl
  | e :: es, s => by simp [accumulate, accumulate_keys f es]

/-- `accumulate` over a map: the keys stay. -/
def mapAccumulate {σ : Type} (f : ν → σ → ν × σ) (m : OrderedMap κ ν) (s : σ) :
    OrderedMap κ ν × σ :=
  (⟨(accumulate f m.entries s).1, by rw [accumulate_keys]; exact m.nodup⟩,
    (accumulate f m.entries s).2)

/-- Whether the map has the key. -/
def has (m : OrderedMap κ ν) (k : κ) : Bool := (m.get k).isSome

omit [DecidableEq κ] in
theorem keys_nodup (m : OrderedMap κ ν) : m.keys.Nodup := m.nodup

theorem put_keys (k : κ) (v : ν) : ∀ es : List (κ × ν), (put k v es).map Prod.fst =
      if k ∈ es.map Prod.fst then es.map Prod.fst else es.map Prod.fst ++ [k]
  | [] => by simp [put]
  | e :: es => by
    by_cases he : e.1 = k
    · subst he; simp [put]
    · have ih := put_keys k v es
      simp only [put, he, if_false, map_cons, ih]
      by_cases hm : k ∈ es.map Prod.fst
      · simp [hm]
      · simp [hm, Ne.symm he]

theorem nodup_put (k : κ) (v : ν) (h : (es.map Prod.fst).Nodup) :
    ((put k v es).map Prod.fst).Nodup := by
  rw [put_keys]
  split
  · exact h
  rename_i hk
  refine nodup_append.mpr ⟨h, nodup_singleton k, ?_⟩
  intro a ha b hb hab
  rw [mem_singleton] at hb
  subst hb
  exact hk (hab ▸ ha)

/-- Set the value of a key, in place when the key is there. -/
def set (m : OrderedMap κ ν) (k : κ) (v : ν) : OrderedMap κ ν :=
  ⟨put k v m.entries, nodup_put k v m.nodup⟩

/-- Remove a key. -/
def delete (m : OrderedMap κ ν) (k : κ) : OrderedMap κ ν :=
  ⟨m.entries.filter (fun e => e.1 ≠ k),
    m.nodup.sublist ((List.filter_sublist).map Prod.fst)⟩

/-- Insert the entries of a list one after the other. -/
def ofList (es : List (κ × ν)) : OrderedMap κ ν :=
  es.foldl (fun m e => m.set e.1 e.2) empty

/-! ### Lookups -/

@[simp] theorem get_empty (k : κ) : (empty : OrderedMap κ ν).get k = none := rfl

theorem find_map (f : ν → μ) (k : κ) : ∀ es : List (κ × ν),
    find k (es.map (fun e => (e.1, f e.2))) = (find k es).map f
  | [] => rfl
  | e :: es => by by_cases h : e.1 = k <;> simp [find, h, find_map f k es]

@[simp] theorem get_mapValues (f : ν → μ) (m : OrderedMap κ ν) (k : κ) :
    (m.mapValues f).get k = (m.get k).map f := find_map f k m.entries

theorem find_eq_none : find k es = none ↔ k ∉ es.map Prod.fst := by
  induction es with
  | nil => simp [find]
  | cons e es ih =>
    by_cases he : e.1 = k
    · simp [find, he]
    · have hk : ¬ k = e.1 := fun h => he h.symm
      simp [find, he, ih, hk]

theorem find_eq_some (hn : (es.map Prod.fst).Nodup) : find k es = some v ↔ (k, v) ∈ es := by
  induction es with
  | nil => simp [find]
  | cons e es ih =>
    obtain ⟨ht, htl⟩ := nodup_cons.mp hn
    obtain ⟨a, b⟩ := e
    by_cases he : a = k
    · subst he
      have ho : ∀ w, (a, w) ∉ es := fun w hw => ht (mem_map.mpr ⟨(a, w), hw, rfl⟩)
      simp [find, ho, eq_comm]
    · have hk : ¬ k = a := fun h => he h.symm
      simp [find, he, ih htl, hk]

theorem get_eq_some : m.get k = some v ↔ (k, v) ∈ m.entries := find_eq_some m.nodup

theorem get_eq_none : m.get k = none ↔ k ∉ m.keys := find_eq_none

theorem mem_keys : k ∈ m.keys ↔ ∃ v, m.get k = some v := by
  rw [← not_iff_not, ← get_eq_none]
  cases h : m.get k <;> simp

theorem has_iff : m.has k = true ↔ k ∈ m.keys := by
  rw [mem_keys, has, Option.isSome_iff_exists]

/-- What is found after a value is put. -/
theorem find_put (k j : κ) (v : ν) (es : List (κ × ν)) :
    find j (put k v es) = if k = j then some v else find j es := by
  induction es with
  | nil => simp [put, find]
  | cons e es ih =>
    by_cases he : e.1 = k
    · subst he
      by_cases hj : e.1 = j <;> simp [put, find, hj]
    · by_cases hj : e.1 = j
      · subst hj
        simp [put, find, he, Ne.symm he]
      · simp [put, find, he, hj, ih]

theorem get_set (m : OrderedMap κ ν) (k j : κ) (v : ν) :
    (m.set k v).get j = if k = j then some v else m.get j := find_put k j v m.entries

@[simp] theorem get_set_self (m : OrderedMap κ ν) (k : κ) (v : ν) :
    (m.set k v).get k = some v := by simp [get_set]

theorem get_set_ne (m : OrderedMap κ ν) (v : ν) (h : k ≠ j) :
    (m.set k v).get j = m.get j := by simp [get_set, h]

theorem find_filter_ne (k j : κ) (es : List (κ × ν)) :
    find j (es.filter (fun e => e.1 ≠ k)) = if k = j then none else find j es := by
  induction es with
  | nil => simp [find]
  | cons e es ih =>
    by_cases he : e.1 = k
    · rw [filter_cons_of_neg (by simp [he]), ih]
      by_cases hj : k = j
      · simp [hj]
      · simp [find, hj, he]
    · rw [filter_cons_of_pos (by simp [he])]
      by_cases hj : e.1 = j
      · subst hj
        simp [find, Ne.symm he]
      · simp only [find, hj, if_false, ih]

theorem get_delete (m : OrderedMap κ ν) (k j : κ) :
    (m.delete k).get j = if k = j then none else m.get j := find_filter_ne k j m.entries

theorem mem_keys_set : j ∈ (m.set k v).keys ↔ j = k ∨ j ∈ m.keys := by
  rw [mem_keys, mem_keys, get_set]
  by_cases h : k = j
  · simp [h]
  · simp [h, Ne.symm h]

theorem mem_keys_delete : j ∈ (m.delete k).keys ↔ j ≠ k ∧ j ∈ m.keys := by
  rw [mem_keys, mem_keys, get_delete]
  by_cases h : k = j
  · simp [h]
  · simp [h, Ne.symm h]

theorem keys_set_of_mem (v : ν) (h : k ∈ m.keys) : (m.set k v).keys = m.keys :=
  (put_keys k v m.entries).trans (if_pos h)

theorem put_of_not_mem (v : ν) (h : k ∉ es.map Prod.fst) : put k v es = es ++ [(k, v)] := by
  induction es with
  | nil => rfl
  | cons e es ih =>
    rw [map_cons, mem_cons, not_or] at h
    rw [put, if_neg (Ne.symm h.1), ih h.2, cons_append]

theorem foldl_set_entries (h : (m.keys ++ es.map Prod.fst).Nodup) :
    (es.foldl (fun m e => m.set e.1 e.2) m).entries = m.entries ++ es := by
  induction es generalizing m with
  | nil => exact (append_nil _).symm
  | cons e es ih =>
    have hs : (m.set e.1 e.2).entries = m.entries ++ [e] :=
      put_of_not_mem e.2 fun hm => (nodup_append.mp h).2.2 _ hm _ mem_cons_self rfl
    rw [foldl_cons, ih, hs, append_assoc, singleton_append]
    rwa [keys, hs, map_append, append_assoc]

/-- Keys that differ stay as they are given. -/
theorem entries_ofList (hn : (es.map Prod.fst).Nodup) : (ofList es).entries = es :=
  foldl_set_entries hn

/-! ### Merging two maps -/

/-- Merge the entries of `n` into `m` one by one; a key `m` lacks counts as `zero`. -/
def merge (zero : ν) (f : ν → ν → ν) (m n : OrderedMap κ ν) : OrderedMap κ ν :=
  n.entries.foldl (fun m e => m.set e.1 (f ((m.get e.1).getD zero) e.2)) m

theorem getD_foldl_merge (k : κ) : ∀ (es : List (κ × ν))
    (m : OrderedMap κ ν), (es.map Prod.fst).Nodup →
      ((es.foldl (fun m e => m.set e.1 (f ((m.get e.1).getD zero) e.2)) m).get k).getD zero =
        match find k es with
        | some v => f ((m.get k).getD zero) v
        | none => (m.get k).getD zero
  | [], _, _ => rfl
  | e :: es, m, hn => by
    obtain ⟨ht, htl⟩ := nodup_cons.mp hn
    rw [foldl_cons, getD_foldl_merge k es _ htl]
    by_cases he : e.1 = k
    · subst he
      simp [find_eq_none.mpr ht, find]
    · simp [find, he, get_set]

theorem getD_merge (m n : OrderedMap κ ν) (k : κ) :
    ((merge zero f m n).get k).getD zero = match n.get k with
      | some v => f ((m.get k).getD zero) v
      | none => (m.get k).getD zero := getD_foldl_merge k n.entries m n.nodup

theorem mem_keys_foldl_merge : ∀ (es : List (κ × ν)) (m : OrderedMap κ ν),
      k ∈ (es.foldl (fun m e => m.set e.1 (f ((m.get e.1).getD zero) e.2)) m).keys ↔
        k ∈ m.keys ∨ k ∈ es.map Prod.fst
  | [], _ => by simp
  | e :: es, m => by
    rw [foldl_cons, mem_keys_foldl_merge es, mem_keys_set, map_cons, mem_cons]
    tauto

theorem mem_keys_merge :
    k ∈ (merge zero f m n).keys ↔ k ∈ m.keys ∨ k ∈ n.keys := mem_keys_foldl_merge n.entries m

/-! ### Sums over the keys -/

omit [DecidableEq κ] in
/-- Changing a key's summand by `d` changes the sum over a duplicate-free list
that has the key by `d`. -/
theorem sum_map_update {l : List κ} (hn : l.Nodup) {f g : κ → Int} {d : Int} (hk : k ∈ l)
    (hd : g k = f k + d) (hne : ∀ j ∈ l, j ≠ k → g j = f j) :
    (l.map g).sum = (l.map f).sum + d := by
  classical
  have hc : (l.map fun j => g j - f j).sum = d := by
    rw [sum_map_eq_nsmul_single k _ fun j hj hm => sub_eq_zero.mpr (hne j hm hj),
      count_eq_one_of_mem hn hk, one_nsmul, hd, add_sub_cancel_left]
  rw [← hc, ← sum_map_add]
  simp

/-! ### Sums over the values -/

/-- The sum of a weight over the values. -/
def weight (f : ν → ℕ) (m : OrderedMap κ ν) : ℕ := (m.entries.map fun e => f e.2).sum

theorem sum_put (f : ν → ℕ) (k : κ) (v : ν) (es : List (κ × ν)) :
    ((put k v es).map fun e => f e.2).sum + ((find k es).map f).getD 0 =
      (es.map fun e => f e.2).sum + f v := by
  induction es with
  | nil => simp [put, find]
  | cons e es ih =>
    by_cases he : e.1 = k
    · simp only [put, find, he, if_true, map_cons, sum_cons, Option.map_some, Option.getD_some]
      omega
    · simp only [put, find, he, if_false, map_cons, sum_cons]
      omega

theorem sum_filter_ne (f : ν → ℕ) (k : κ) (hn : (es.map Prod.fst).Nodup) :
    ((es.filter fun e => e.1 ≠ k).map fun e => f e.2).sum + ((find k es).map f).getD 0 =
      (es.map fun e => f e.2).sum := by
  induction es with
  | nil => simp [find]
  | cons e es ih =>
    rw [map_cons, nodup_cons] at hn
    have ih := ih hn.2
    by_cases he : e.1 = k
    · subst he
      have hno : find e.1 es = none := find_eq_none.mpr hn.1
      rw [hno, Option.map_none, Option.getD_none] at ih
      rw [filter_cons_of_neg (by simp), map_cons, sum_cons, find, if_pos rfl,
        Option.map_some, Option.getD_some]
      omega
    · rw [filter_cons_of_pos (by simp [he]), map_cons, sum_cons, map_cons,
        sum_cons, find, if_neg he]
      omega

/-- Setting a key takes the weight of its old value out and puts that of the new one in. -/
theorem weight_set (f : ν → ℕ) (m : OrderedMap κ ν) (k : κ) (v : ν) :
    (m.set k v).weight f + ((m.get k).map f).getD 0 = m.weight f + f v :=
  sum_put f k v m.entries

theorem weight_delete (f : ν → ℕ) (m : OrderedMap κ ν) (k : κ) :
    (m.delete k).weight f + ((m.get k).map f).getD 0 = m.weight f :=
  sum_filter_ne f k m.nodup

/-- The weight is positive where some value has one. -/
theorem weight_pos {f : ν → ℕ} : 0 < m.weight f ↔ ∃ k v, m.get k = some v ∧ 0 < f v := by
  constructor
  · intro h
    by_contra hno
    refine absurd h (not_lt.mpr (le_of_eq (sum_eq_zero fun n hn => ?_)))
    obtain ⟨e, he, rfl⟩ := mem_map.mp hn
    by_contra hne
    exact hno ⟨e.1, e.2, get_eq_some.mpr he, pos_of_ne_zero hne⟩
  · rintro ⟨k, v, hg, hp⟩
    have hm : f v ∈ m.entries.map (fun e => f e.2) :=
      mem_map.mpr ⟨(k, v), get_eq_some.mp hg, rfl⟩
    obtain ⟨pre, after, hs⟩ := append_of_mem hm
    rw [weight, hs, sum_append, sum_cons]
    omega

/-! ### Additive updates

A table whose rows are added to: `upsert` combines the new value with the one the key has.  A
reading `f` of the rows that the combination adds up is then a total that grows by the reading
of each new value. -/

section Totals
variable {M : Type} [AddCommMonoid M]

/-- The sum of a reading over the entries. -/
def total (f : κ → ν → M) (m : OrderedMap κ ν) : M := (m.entries.map fun e => f e.1 e.2).sum

omit [DecidableEq κ] in
@[simp] theorem total_empty (f : κ → ν → M) : (empty : OrderedMap κ ν).total f = 0 := rfl

/-- Add `v` to the value of `k`, or insert it. -/
def upsert (combine : ν → ν → ν) (m : OrderedMap κ ν) (k : κ) (v : ν) : OrderedMap κ ν :=
  m.set k (((m.get k).map fun old => combine old v).getD v)

variable {f : κ → ν → M} {k : κ} {v : ν}

theorem sum_put_of_find_none (h : find k es = none) :
    ((put k v es).map fun e => f e.1 e.2).sum = (es.map fun e => f e.1 e.2).sum + f k v := by
  induction es with
  | nil => simp [put]
  | cons e es ih =>
    by_cases he : e.1 = k
    · simp [find, he] at h
    · rw [find, if_neg he] at h
      rw [put, if_neg he, map_cons, sum_cons, ih h, map_cons, sum_cons, add_assoc]

theorem sum_put_of_find_some {old add : ν} (h : find k es = some old)
    (hv : f k v = f k old + f k add) :
    ((put k v es).map fun e => f e.1 e.2).sum = (es.map fun e => f e.1 e.2).sum + f k add := by
  induction es with
  | nil => cases h
  | cons e es ih =>
    by_cases he : e.1 = k
    · rw [find, if_pos he] at h
      cases h
      rw [put, if_pos he, map_cons, sum_cons, map_cons, sum_cons, hv, he]
      exact add_right_comm _ _ _
    · rw [find, if_neg he] at h
      rw [put, if_neg he, map_cons, sum_cons, ih h, map_cons, sum_cons, add_assoc]

/-- **An additive update adds the reading of what was added.** -/
theorem total_upsert {combine : ν → ν → ν}
    (h : ∀ old, m.get k = some old → f k (combine old v) = f k old + f k v) :
    (m.upsert combine k v).total f = m.total f + f k v := by
  show ((put k _ m.entries).map _).sum = _
  cases hold : m.get k with
  | none => exact sum_put_of_find_none hold
  | some old => exact sum_put_of_find_some hold (h old hold)

/-- A row that is taken out takes its reading along. -/
theorem total_delete (h : m.get k = some v) : (m.delete k).total f + f k v = m.total f := by
  have hm := get_eq_some.mp h
  have hpm : m.entries.Perm ((k, v) :: m.entries.filter fun e => e.1 ≠ k) := by
    obtain ⟨pre, after, hs⟩ := append_of_mem hm
    have hn := m.nodup
    rw [hs, map_append, map_cons] at hn
    -- no other entry has the key, so that the filter drops this one only
    have ht := (nodup_middle.mp hn)
    rw [nodup_cons, ← map_append] at ht
    have hke : ∀ e ∈ pre ++ after, e.1 ≠ k := fun e he hk =>
      ht.1 (mem_map.mpr ⟨e, he, hk⟩)
    rw [hs, filter_append, filter_cons_of_neg (by simp), ← filter_append,
      filter_eq_self.mpr fun e he => decide_eq_true (hke e he)]
    exact perm_middle
  show ((m.entries.filter fun e => e.1 ≠ k).map _).sum + _ = _
  rw [total, (hpm.map fun e => f e.1 e.2).sum_eq, map_cons, sum_cons, add_comm]

end Totals

end OrderedMap
end ModelProxy
