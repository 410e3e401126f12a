import ModelProxy.OrderedMap
import Mathlib.Algebra.Order.BigOperators.Group.List

/-! # Overlapping claims

What claims take on one node: node memory (the VRAM of unified GPUs included) and VRAM
per dedicated GPU, in hundredths of a GiB.  An instance's current claims and those of
the run a restart replaces never run at the same time, so they overlap: together they
take the larger of the two sums in every component.

A usage is read through `vram`, which is zero on a GPU the map lacks.
-/
namespace ModelProxy.Placement

/-- What claims take together. -/
structure ClaimUsage where
  memoryGb : Int
  gpus : OrderedMap String Int
deriving DecidableEq

namespace ClaimUsage

/-- VRAM taken on one GPU. -/
def vram (usage : ClaimUsage) (key : String) : Int := (usage.gpus.get key).getD 0

/-- Combine two usages, component by component; a GPU the first lacks counts as 0 there. -/
def combine (f : Int → Int → Int) (a b : ClaimUsage) : ClaimUsage where
  memoryGb := f a.memoryGb b.memoryGb
  gpus := OrderedMap.merge 0 f a.gpus b.gpus

end ClaimUsage

/-- No claim takes anything. -/
def noUsage : ClaimUsage := ⟨0, OrderedMap.empty⟩

/-- Everything these claims take together (they all run at once). -/
def sumUsage (usages : List ClaimUsage) : ClaimUsage :=
  usages.foldl (ClaimUsage.combine (· + ·)) noUsage

/-- The larger of two usages, component by component (the union of their GPUs). -/
def maxUsage (a b : ClaimUsage) : ClaimUsage := ClaimUsage.combine max a b

/-- `a - b`, component by component. -/
def subtractUsage (a b : ClaimUsage) : ClaimUsage := ClaimUsage.combine (· - ·) a b

/-- What adding `added` to an instance's new claims on a node takes beyond what the node
already counts for it: `floor` is the old claims' usage, `placed` the new claims placed
there so far. -/
def overlapGrowth (floor placed added : ClaimUsage) : ClaimUsage :=
  subtractUsage (maxUsage (sumUsage [placed, added]) floor) (maxUsage placed floor)

/-! ### Components -/

/-- Growth of one component: `max (placed + added) floor - max placed floor`. -/
def growthOf (floor placed added : Int) : Int := max (placed + added) floor - max placed floor

theorem growthOf_zero (fl pl : Int) : growthOf fl pl 0 = 0 := by simp [growthOf]

variable {f : Int → Int → Int} {key : String}

@[simp] theorem noUsage_vram (key : String) : noUsage.vram key = 0 := rfl

namespace ClaimUsage
variable {a b : ClaimUsage} {key : String}

/-- A GPU the second usage lacks counts as zero there too, if `f` lets it. -/
theorem combine_vram (hz : f (a.vram key) 0 = a.vram key) :
    (combine f a b).vram key = f (a.vram key) (b.vram key) := by
  unfold vram combine at *
  rw [OrderedMap.getD_merge]
  cases hb : b.gpus.get key with
  | some gb => rfl
  | none => exact hz.symm

theorem mem_keys_combine :
    key ∈ (combine f a b).gpus.keys ↔ key ∈ a.gpus.keys ∨ key ∈ b.gpus.keys :=
  OrderedMap.mem_keys_merge

theorem add_vram : (combine (· + ·) a b).vram key = a.vram key + b.vram key :=
  combine_vram (by simp)

end ClaimUsage

open ClaimUsage List OrderedMap

theorem maxUsage_vram {a : ClaimUsage} (b : ClaimUsage) (ha : 0 ≤ a.vram key) :
    (maxUsage a b).vram key = max (a.vram key) (b.vram key) :=
  combine_vram (by simpa using ha)

section Growth
variable {fl pl added : ClaimUsage}

theorem overlapGrowth_memoryGb :
    (overlapGrowth fl pl added).memoryGb =
      growthOf fl.memoryGb pl.memoryGb added.memoryGb := by
  simp [overlapGrowth, subtractUsage, maxUsage, sumUsage, noUsage, combine, growthOf]

theorem overlapGrowth_vram (fl : ClaimUsage) (hp : 0 ≤ pl.vram key) (ha : 0 ≤ added.vram key) :
    (overlapGrowth fl pl added).vram key =
      growthOf (fl.vram key) (pl.vram key) (added.vram key) := by
  have hs : (sumUsage [pl, added]).vram key = pl.vram key + added.vram key := by
    simp [sumUsage, add_vram]
  unfold overlapGrowth subtractUsage
  rw [combine_vram (by simp), maxUsage_vram fl (by omega), maxUsage_vram fl hp, hs]
  rfl

theorem mem_keys_overlapGrowth (h : key ∈ added.gpus.keys) :
    key ∈ (overlapGrowth fl pl added).gpus.keys := by
  have hs : key ∈ (sumUsage [pl, added]).gpus.keys := mem_keys_combine.mpr (.inr h)
  exact mem_keys_combine.mpr (.inl (mem_keys_combine.mpr (.inl hs)))

end Growth

end ModelProxy.Placement
