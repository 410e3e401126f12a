import Mathlib.Data.String.Basic
import ModelProxy.ClaimOverlap
import ModelProxy.Combinations
import ModelProxy.Comparator

/-! # How one claim fits on one node

A node's budget is what its claims leave: memory, VRAM per GPU and ports.  A claim fits when its
memory (with the VRAM of unified GPUs) is free, `gpuCount` GPUs of one vendor have its VRAM
free, and a port is.  A restart's claim only needs its growth over the old claims the node still
counts (`Floor`).

Amounts carry two decimals, so hundredths are exact and the source's slack for rounding
errors is left out.
-/
namespace ModelProxy.Placement
open List

/-! ## Needs -/

/-- Who makes a GPU. -/
inductive GpuVendor
  | nvidia | amd | intel | apple | other
deriving DecidableEq, Repr

/-- The vendor's name. -/
def GpuVendor.name : GpuVendor → String
  | .nvidia => "nvidia"
  | .amd => "amd"
  | .intel => "intel"
  | .apple => "apple"
  | .other => "other"

/-- Amounts are hundredths of a GiB. -/
inductive RuntimeResource
  | none
  | unified (memoryGb : ℕ)
  | cpu (ramGb : ℕ)
  | discrete (gpuCount vramGb : ℕ) (ramGb : Option ℕ) (vendor : Option GpuVendor)
deriving DecidableEq, Repr

/-- What a rank needs of a node. -/
structure Needs where
  memoryGb : ℕ
  gpuCount : ℕ
  vramGb : ℕ
  vendor : Option GpuVendor
deriving DecidableEq, Repr

/-- No need at all. -/
def noNeeds : Needs := ⟨0, 0, 0, none⟩

/-- What declared resources take from a node. -/
def RuntimeResource.needs : RuntimeResource → Needs
  | .none => noNeeds
  | .unified memoryGb => { noNeeds with memoryGb }
  | .cpu ramGb => { noNeeds with memoryGb := ramGb }
  | .discrete gpuCount vramGb ramGb vendor => ⟨ramGb.getD 0, gpuCount, vramGb, vendor⟩

/-! ## Budgets -/

/-- A GPU of a node as the planner's callers load it. -/
structure PlacementGpu where
  key : String
  vendor : GpuVendor
  /-- Usable VRAM (0 when `unified`). -/
  vramGb : Int
  /-- Shares system memory: VRAM taken on it comes out of the node's memory. -/
  unified : Bool
deriving DecidableEq, Repr

/-- A node, as far as a fit reads it.  Its GPU keys are distinct: they are read off a map keyed
by `vendor:index`. -/
structure PlacementNode where
  portRange : ℕ × ℕ
  memoryGb : Int
  gpus : List PlacementGpu
  gpuKeys_nodup : (gpus.map (·.key)).Nodup

/-- A GPU with what is free on it.  A unified one shares the node's memory and has nothing of
its own. -/
structure GpuBudget where
  key : String
  vendor : GpuVendor
  unified : Bool
  freeGb : Int
  shared : unified = true → freeGb = 0
deriving DecidableEq

/-- Claimed ports, counted: two claims of one port release separately. -/
structure PortClaims where
  count : ℕ → ℕ

namespace PortClaims

/-- No port is claimed. -/
def none : PortClaims := ⟨fun _ => 0⟩

/-- A claim has this port. -/
def has (ports : PortClaims) (port : ℕ) : Bool := decide (0 < ports.count port)

end PortClaims

/-- What a node has left. -/
structure Budget where
  memoryGb : Int
  gpus : List GpuBudget
  keys_nodup : (gpus.map (·.key)).Nodup
  ports : PortClaims

/-- The budget of a GPU nothing is taken from. -/
def PlacementGpu.budget (gpu : PlacementGpu) : GpuBudget where
  key := gpu.key
  vendor := gpu.vendor
  unified := gpu.unified
  freeGb := if gpu.unified then 0 else gpu.vramGb
  shared h := if_pos h

/-- The budget the planner starts a node with, its GPUs by key. -/
def PlacementNode.budget (node : PlacementNode) : Budget where
  memoryGb := node.memoryGb
  gpus := ((Comparator.sign.comap (·.key)).sort node.gpus).map PlacementGpu.budget
  keys_nodup := by
    have hp := (Comparator.sign.comap PlacementGpu.key).sort_perm node.gpus
    rw [map_map]
    exact (hp.map _).nodup_iff.mpr node.gpuKeys_nodup
  ports := .none

/-- The usage takes VRAM of dedicated GPUs only. -/
def Dedicated (budget : Budget) (usage : ClaimUsage) : Prop :=
  ∀ gpu ∈ budget.gpus, gpu.unified = true → usage.vram gpu.key = 0

/-- VRAM taken from a dedicated GPU. -/
def GpuBudget.take (gpu : GpuBudget) (gb : Int) (h : gpu.unified = true → gb = 0) : GpuBudget where
  key := gpu.key
  vendor := gpu.vendor
  unified := gpu.unified
  freeGb := gpu.freeGb - gb
  shared hu := by rw [gpu.shared hu, h hu, sub_zero]

/-- Takes (sign 1) or gives back (sign -1) a usage. -/
def applyUsage (budget : Budget) (usage : ClaimUsage) (sign : Int)
    (h : Dedicated budget usage) : Budget where
  memoryGb := budget.memoryGb - sign * usage.memoryGb
  gpus := budget.gpus.attach.map fun gpu => gpu.1.take (sign * usage.vram gpu.1.key) fun hu =>
    mul_eq_zero_of_right sign (h gpu.1 gpu.2 hu)
  keys_nodup := by
    have hm : (budget.gpus.attach.map fun gpu => gpu.1.key) = budget.gpus.map (·.key) :=
      attach_map_val
    rw [map_map]
    exact hm ▸ budget.keys_nodup
  ports := budget.ports

/-- What a GPU has free for a rank. -/
def gpuFreeGb (budget : Budget) (gpu : GpuBudget) (reserveGb : Int) : Int :=
  if gpu.unified then budget.memoryGb - reserveGb else gpu.freeGb

/-- The GPU of a key. -/
def findGpu (budget : Budget) (key : String) : Option GpuBudget :=
  budget.gpus.find? (fun gpu => gpu.key = key)

/-- How many of these GPU keys are unified. -/
def unifiedCount (budget : Budget) (gpuKeys : List String) : ℕ :=
  (budget.gpus.filter fun gpu => gpu.unified && gpuKeys.contains gpu.key).length

/-- The most GPU sets one search tries per vendor. -/
def gpuSetsMax : ℕ := 4096

/-- `count` GPUs of one vendor that `feasible` accepts, vendor by vendor. -/
def vendorsFeasible (sorted : List GpuBudget) (count : ℕ) (feasible : List GpuBudget → Bool) :
    List GpuVendor → Option (List GpuBudget)
  | [] => none
  | vendor :: vendors =>
    let same := sorted.filter (fun gpu => gpu.vendor = vendor)
    if same.length < count then vendorsFeasible sorted count feasible vendors
    else
      match search gpuSetsMax feasible count same with
      | some picked => some picked
      | none => vendorsFeasible sorted count feasible vendors

/-- The vendor of the best-fitting GPU first. -/
def oneVendorFeasible (sorted : List GpuBudget) (count : ℕ) (feasible : List GpuBudget → Bool) :
    Option (List GpuBudget) :=
  vendorsFeasible sorted count feasible (sorted.map (·.vendor)).eraseDups

/-! ## The fit rules -/

/-- Whether a new claim with these needs fits on these GPUs. -/
def freshFits (budget : Budget) (needs : Needs) (gpuKeys : List String) : Bool :=
  decide ((needs.memoryGb + unifiedCount budget gpuKeys * needs.vramGb : Int) ≤ budget.memoryGb) &&
    gpuKeys.all fun key =>
      match findGpu budget key with
      | some gpu => gpu.unified || decide ((needs.vramGb : Int) ≤ gpu.freeGb)
      | none => true

/-- One GPU of a claim. -/
def addUsage (budget : Budget) (needs : Needs) (usage : ClaimUsage) (key : String) : ClaimUsage :=
  match findGpu budget key with
  | none => usage
  | some gpu =>
    if gpu.unified then { usage with memoryGb := usage.memoryGb + needs.vramGb }
    else { usage with gpus := usage.gpus.set key ((usage.gpus.get key).getD 0 + needs.vramGb) }

/-- What a claim with these needs takes on these GPUs.  Keys the node lacks take nothing. -/
def usageOf (budget : Budget) (needs : Needs) (gpuKeys : List String) : ClaimUsage :=
  gpuKeys.foldl (addUsage budget needs) ⟨needs.memoryGb, OrderedMap.empty⟩

/-- A restarting instance's old claims on one node, still held in the budget, the GPU keys
they hold, and its new claims placed there so far. -/
structure Floor where
  floor : ClaimUsage
  keys : List String
  placed : ClaimUsage
  placed_nonneg : ∀ key, 0 ≤ placed.vram key

/-- The floor of a restart, nothing placed over it yet. -/
def heldFloor (usages : List ClaimUsage) (keys : List String) : Floor :=
  ⟨sumUsage usages, keys, noUsage, fun _ => le_rfl⟩

/-- Whether `growth` fits in `freeGb`. -/
def grows (growth freeGb : Int) : Bool := decide (growth ≤ freeGb)

/-- `freshFits` for a restart's claim: only its growth must fit, in node memory and on each
GPU it uses. -/
def overFits (budget : Budget) (needs : Needs) (gpuKeys : List String) (floor : Floor) : Bool :=
  let take := overlapGrowth floor.floor floor.placed (usageOf budget needs gpuKeys)
  grows take.memoryGb budget.memoryGb && take.gpus.entries.all fun entry =>
    !gpuKeys.contains entry.1 ||
      match findGpu budget entry.1 with
      | some gpu => grows entry.2 gpu.freeGb
      | none => true

/-- The GPU is of the vendor asked for, if any. -/
def vendorAllows (needs : Needs) (gpu : GpuBudget) : Bool :=
  needs.vendor.all fun vendor => gpu.vendor = vendor

/-- The GPUs with room of their own, least free first, then by key. -/
def fittingGpus (budget : Budget) (needs : Needs) : List GpuBudget :=
  let free := fun gpu => gpuFreeGb budget gpu needs.memoryGb
  ((Comparator.difference.comap free).thenBy (Comparator.sign.comap fun gpu => gpu.key)).sort
    (budget.gpus.filter fun gpu =>
      vendorAllows needs gpu && decide ((needs.vramGb : Int) ≤ free gpu))

/-- The GPUs a rank takes: best fit, of one vendor. -/
def pickGpus (budget : Budget) (needs : Needs) : Option (List String) :=
  if needs.gpuCount = 0 then some []
  else
    (oneVendorFeasible (fittingGpus budget needs) needs.gpuCount fun picked =>
      freshFits budget needs (picked.map (·.key))).map fun chosen => chosen.map (·.key)

/-- What a GPU adds for a restart's claim beyond what the old claims hold there. -/
def gpuGrowth (needs : Needs) (floor : Floor) (gpu : GpuBudget) : Int :=
  if gpu.unified then
    (overlapGrowth floor.floor floor.placed
      ⟨needs.memoryGb + needs.vramGb, OrderedMap.empty⟩).memoryGb
  else
    (overlapGrowth floor.floor floor.placed
      ⟨0, OrderedMap.empty.set gpu.key (needs.vramGb : Int)⟩).vram gpu.key

/-- The GPUs with room for what they add: those the old claims hold first, then best fit by
what is left. -/
def fittingGpusOver (budget : Budget) (needs : Needs) (floor : Floor) : List GpuBudget :=
  let growth := gpuGrowth needs floor
  let room := fun gpu : GpuBudget => if gpu.unified then budget.memoryGb else gpu.freeGb
  (((Comparator.difference.flip.comap fun gpu : GpuBudget =>
      if floor.keys.contains gpu.key then 1 else 0).thenBy
    (Comparator.difference.comap fun gpu => room gpu - growth gpu)).thenBy
    (Comparator.sign.comap fun gpu => gpu.key)).sort
      (budget.gpus.filter fun gpu => vendorAllows needs gpu && grows (growth gpu) (room gpu))

/-- `pickGpus` for a restart's claim. -/
def pickGpusOver (budget : Budget) (needs : Needs) (floor : Floor) : Option (List String) :=
  if needs.gpuCount = 0 then some []
  else
    (oneVendorFeasible (fittingGpusOver budget needs floor) needs.gpuCount fun picked =>
      overFits budget needs (picked.map (·.key)) floor).map fun chosen => chosen.map (·.key)

/-- The pick a claim makes, over a floor or not. -/
def pickFor (floor : Option Floor) (budget : Budget) (needs : Needs) : Option (List String) :=
  match floor with
  | some floor => pickGpusOver budget needs floor
  | none => pickGpus budget needs

/-- What a claim takes: its usage, or its growth over a floor. -/
def takeOf (floor : Option Floor) (budget : Budget) (needs : Needs) (gpuKeys : List String) :
    ClaimUsage :=
  floor.elim (usageOf budget needs gpuKeys) fun floor =>
    overlapGrowth floor.floor floor.placed (usageOf budget needs gpuKeys)

/-! ## Ports -/

/-- The version's fixed port, or a restart's own port. -/
structure RankPort where
  fixed : Option ℕ
  kept : Option ℕ
deriving DecidableEq, Repr

/-- A rank that asks for no port. -/
def anyPort : RankPort := ⟨none, none⟩

/-- A port of the range. -/
def inRange (port : ℕ) (range : ℕ × ℕ) : Bool := decide (range.1 ≤ port) && decide (port ≤ range.2)

/-- The ports of a range, lowest first. -/
def portsOf (range : ℕ × ℕ) : List ℕ := List.range' range.1 (range.2 + 1 - range.1)

/-- The fixed port if free; else the kept port if usable; else the range's lowest free port. -/
def freePort (budget : Budget) (node : PlacementNode) (wanted : RankPort) : Option ℕ :=
  match wanted.fixed with
  | some fixed => if budget.ports.has fixed then none else some fixed
  | none =>
    match wanted.kept.filter fun kept =>
      inRange kept node.portRange && !budget.ports.has kept with
    | some kept => some kept
    | none => (portsOf node.portRange).find? fun port => !budget.ports.has port

/-! ## The fit -/

/-- Why a rank (or a reservation) does not fit on a node it may use. -/
inductive FitReason
  | notEnoughMemory | portInUse | noFreePorts
deriving DecidableEq, Repr

/-- A fit; `take` is what it takes from the budget. -/
structure Fitted where
  port : ℕ
  gpuKeys : List String
  needs : Needs
  take : ClaimUsage
deriving DecidableEq

/-- What was found, or why nothing fits. -/
abbrev Fit := Except FitReason Fitted

/-- The needs a claim is fitted with, in order: its own; then, when it wants GPUs and names
no vendor, pinned to each vendor the node has. -/
def vendorTrials (budget : Budget) (needs : Needs) : List Needs :=
  if needs.vendor.isSome || needs.gpuCount = 0 then [needs]
  else
    let vendors := (Comparator.sign.comap GpuVendor.name).sort
      (budget.gpus.map (·.vendor)).eraseDups
    needs :: vendors.map fun vendor => { needs with vendor := some vendor }

/-- The port of a claim whose GPUs are chosen (a reservation takes none). -/
def withPort (node : PlacementNode) (budget : Budget) (wanted : RankPort) (needsPort : Bool)
    (gpuKeys : List String) (needs : Needs) (take : ClaimUsage) : Fit :=
  if needsPort then
    match freePort budget node wanted with
    | none => .error (if wanted.fixed.isNone then .noFreePorts else .portInUse)
    | some port => .ok ⟨port, gpuKeys, needs, take⟩
  else .ok ⟨0, gpuKeys, needs, take⟩

/-- `fit` of a claim with these needs on a node it holds nothing on yet. -/
def fitFresh (node : PlacementNode) (budget : Budget) (needs : Needs) (wanted : RankPort)
    (needsPort : Bool) : Fit :=
  if budget.memoryGb < needs.memoryGb then .error .notEnoughMemory
  else
    match pickGpus budget needs with
    | none => .error .notEnoughMemory
    | some gpuKeys =>
      if freshFits budget needs gpuKeys then
        withPort node budget wanted needsPort gpuKeys needs (usageOf budget needs gpuKeys)
      else .error .notEnoughMemory

/-- `fit` of a restart's claim over its old claims on the node: only its growth must fit. -/
def fitOver (node : PlacementNode) (budget : Budget) (needs : Needs) (wanted : RankPort)
    (needsPort : Bool) (floor : Floor) : Fit :=
  match pickGpusOver budget needs floor with
  | none => .error .notEnoughMemory
  | some gpuKeys =>
    if overFits budget needs gpuKeys floor then
      withPort node budget wanted needsPort gpuKeys needs
        (overlapGrowth floor.floor floor.placed (usageOf budget needs gpuKeys))
    else .error .notEnoughMemory

/-- The first trial that fits, or is refused for more than room. -/
def fitTrials (trial : Needs → Fit) : List Needs → Fit
  | [] => .error .notEnoughMemory
  | needs :: rest =>
    match trial needs with
    | .error .notEnoughMemory => fitTrials trial rest
    | fitted => fitted

/-- How a claim fits on a node; `floor`: a restart's old claims there. -/
def fit (node : PlacementNode) (budget : Budget) (resources : RuntimeResource)
    (wanted : RankPort) (needsPort : Bool) (floor : Option Floor) : Fit :=
  fitTrials
    (fun needs =>
      match floor with
      | some floor => fitOver node budget needs wanted needsPort floor
      | none => fitFresh node budget needs wanted needsPort)
    (vendorTrials budget resources.needs)

end ModelProxy.Placement
