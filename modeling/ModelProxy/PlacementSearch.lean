import Mathlib.Order.Bounds.Defs
import ModelProxy.AugmentingPaths

/-! # Choosing nodes

A single-node instance's reservations are given nodes of their own together (augmenting paths).
-/
namespace ModelProxy.Placement.Planner

/-- Each reservation's own node from its list, or the first entry left without. -/
def assignReservations (lists : List (List String)) : Except ℕ (List String) :=
  Matching.choose lists

/-- **Each reservation gets a node of its own list, all different, if that is possible**; if
not, the entry left without is the first with which it is not. -/
theorem assignReservations_decides (lists : List (List String)) :
    (∀ fuel, lists.flatten.length < fuel →
      Matching.assign lists fuel = Matching.assign lists (lists.flatten.length + 1)) ∧
    (Matching.Distinct lists → ∃ nodeIds, assignReservations lists = .ok nodeIds ∧
      Matching.Represents nodeIds lists) ∧
    (¬ Matching.Distinct lists → ∃ i, assignReservations lists = .error i ∧ i < lists.length ∧
      IsLeast {i | ¬ Matching.Distinct (lists.take (i + 1))} i) := by
  have hs := Matching.choose_spec lists
  unfold assignReservations
  refine ⟨fun fuel => Matching.assign_enough, fun hd => ?_, fun hn => ?_⟩
  · cases hc : Matching.choose lists with
    | ok nodeIds =>
      rw [hc] at hs
      exact ⟨nodeIds, rfl, hs⟩
    | error i =>
      rw [hc] at hs
      exact absurd (hd.take _) hs.2.2
  · cases hc : Matching.choose lists with
    | ok nodeIds =>
      rw [hc] at hs
      exact absurd ⟨nodeIds, hs⟩ hn
    | error i =>
      rw [hc] at hs
      obtain ⟨hlt, hd, hf⟩ := hs
      refine ⟨i, rfl, hlt, hf, fun j hj => ?_⟩
      -- fewer lists than `i` are among those that have representatives
      by_contra hl
      have hm := hd.take (j + 1)
      rw [List.take_take, Nat.min_eq_left (by omega)] at hm
      exact hj hm

end ModelProxy.Placement.Planner
