import ModelProxy.PlacementFit

/-! # The fit rule

A claim has room on a set of GPUs when what it takes (for a restart: its growth over the
old claims) is free in node memory and on every dedicated GPU of the set.  A fit returns a
set with room, of one vendor the claim allows; and where a search may try every set, it finds
one whenever there is one.
-/
namespace ModelProxy.Placement
open List OrderedMap

/-! ## What a claim takes on a set of GPUs -/

/-- Unified GPUs of the set: their VRAM is node memory. -/
def unifiedIn (K : List GpuBudget) : ℕ := (K.filter (·.unified)).length

/-- The key is that of a dedicated GPU of the set. -/
def DedicatedIn (K : List GpuBudget) (key : String) : Prop :=
  ∃ gpu ∈ K, gpu.unified = false ∧ gpu.key = key

instance (K : List GpuBudget) (key : String) : Decidable (DedicatedIn K key) :=
  inferInstanceAs (Decidable (∃ gpu ∈ K, _))

variable {gpu : GpuBudget}

theorem find_key {gpus : List GpuBudget} (h : (gpus.map (·.key)).Nodup) (hg : gpu ∈ gpus) :
    gpus.find? (fun g => g.key = gpu.key) = some gpu := by
  induction gpus with
  | nil => cases hg
  | cons g gpus ih =>
    obtain ⟨hn, htl⟩ := nodup_cons.mp h
    rcases mem_cons.mp hg with rfl | hg
    · simp
    · have hne : g.key ≠ gpu.key := fun he => hn (mem_map.mpr ⟨gpu, hg, he.symm⟩)
      rw [find?_cons_of_neg (by simpa using hne)]
      exact ih htl hg

section Usage
variable {bud : Budget} {nd : Needs} {K : List GpuBudget}

theorem findGpu_of_mem (hg : gpu ∈ bud.gpus) : findGpu bud gpu.key = some gpu :=
  find_key bud.keys_nodup hg

/-- A claim takes VRAM of dedicated GPUs only. -/
theorem usageOf_dedicated (bud : Budget) (nd : Needs) (keys : List String) :
    Dedicated bud (usageOf bud nd keys) := by
  intro gpu hg hu
  suffices h : ∀ usage : ClaimUsage, (keys.foldl (addUsage bud nd) usage).vram gpu.key =
      usage.vram gpu.key by
    rw [usageOf, h]
    rfl
  induction keys with
  | nil => exact fun _ => rfl
  | cons key keys ih =>
    intro usage
    rw [foldl_cons, ih]
    unfold addUsage
    split
    · rfl
    next found hfd =>
    split
    · rfl
    next hd =>
      have hk : key ≠ gpu.key := by
        rintro rfl
        rw [findGpu_of_mem hg] at hfd
        cases hfd
        exact hd hu
      simp [ClaimUsage.vram, get_set, hk]

theorem dedicatedIn_cons (K : List GpuBudget) (key : String) :
    DedicatedIn (gpu :: K) key ↔ (gpu.unified = false ∧ gpu.key = key) ∨ DedicatedIn K key := by
  simp [DedicatedIn]

theorem addUsage_unified (nd : Needs) (h : findGpu bud gpu.key = some gpu)
    (hu : gpu.unified = true) (usage : ClaimUsage) :
    addUsage bud nd usage gpu.key = { usage with memoryGb := usage.memoryGb + nd.vramGb } := by
  simp [addUsage, h, hu]

theorem addUsage_dedicated (nd : Needs) (h : findGpu bud gpu.key = some gpu)
    (hu : gpu.unified = false) (usage : ClaimUsage) :
    addUsage bud nd usage gpu.key =
      ⟨usage.memoryGb, usage.gpus.set gpu.key ((usage.gpus.get gpu.key).getD 0 + nd.vramGb)⟩ := by
  simp [addUsage, h, hu]

/-- What the GPUs of a set add to a usage. -/
theorem foldl_addUsage (nd : Needs) (hK : ∀ gpu ∈ K, findGpu bud gpu.key = some gpu)
    (hn : (K.map (·.key)).Nodup) (usage : ClaimUsage) :
    let total := (K.map (·.key)).foldl (addUsage bud nd) usage
    total.memoryGb = usage.memoryGb + unifiedIn K * nd.vramGb ∧
    (∀ key, total.vram key = usage.vram key + if DedicatedIn K key then (nd.vramGb : Int) else 0) ∧
    ∀ key, key ∈ usage.gpus.keys ∨ DedicatedIn K key → key ∈ total.gpus.keys := by
  induction K generalizing usage with
  | nil => simp [unifiedIn, DedicatedIn]
  | cons gpu K ih =>
    obtain ⟨ht, htl⟩ := nodup_cons.mp hn
    have hfd := hK gpu mem_cons_self
    obtain ⟨hm, hvr, hky⟩ := ih (fun g hg => hK g (mem_cons_of_mem _ hg)) htl
      (addUsage bud nd usage gpu.key)
    have ho : ¬ DedicatedIn K gpu.key := by
      rintro ⟨g, hg, -, hk⟩
      exact ht (mem_map.mpr ⟨g, hg, hk⟩)
    simp only [map_cons, foldl_cons]
    cases hu : gpu.unified with
    | true =>
      rw [addUsage_unified nd hfd hu] at hm hvr hky ⊢
      refine ⟨?_, fun key => ?_, fun key => ?_⟩
      · rw [hm]
        simp only [unifiedIn, filter_cons, hu, if_true, length_cons]
        push_cast
        ring
      · rw [hvr]
        simp only [dedicatedIn_cons, hu, Bool.true_eq_false, false_and, false_or]
        rfl
      · simpa [dedicatedIn_cons, hu] using hky key
    | false =>
      rw [addUsage_dedicated nd hfd hu] at hm hvr hky ⊢
      refine ⟨?_, fun key => ?_, fun key => ?_⟩
      · rw [hm]
        simp [unifiedIn, hu]
      · rw [hvr]
        simp only [dedicatedIn_cons, hu, true_and, ClaimUsage.vram, get_set]
        by_cases hk : gpu.key = key
        · subst hk
          simp [ho]
        · simp [hk]
      · have hk := hky key
        simp only [mem_keys_set, dedicatedIn_cons, hu, true_and] at hk ⊢
        tauto

end Usage

/-! ## Room -/

/-- Node memory a claim adds. -/
def growMemory (floor : Option Floor) (added : Int) : Int :=
  floor.elim added fun floor => growthOf floor.floor.memoryGb floor.placed.memoryGb added

/-- VRAM a claim adds on one GPU. -/
def growVram (floor : Option Floor) (key : String) (added : Int) : Int :=
  floor.elim added fun floor => growthOf (floor.floor.vram key) (floor.placed.vram key) added

theorem growMemory_mono {fl : Option Floor} {a b : Int} (h : a ≤ b) :
    growMemory fl a ≤ growMemory fl b := by
  cases fl with
  | none => exact h
  | some fl =>
    simp only [growMemory, Option.elim_some, growthOf]
    omega

theorem growVram_zero (fl : Option Floor) (key : String) : growVram fl key 0 = 0 := by
  cases fl with
  | none => rfl
  | some fl => exact growthOf_zero _ _

/-- **The declared rule**: what the claim takes on these GPUs is free, in node memory (the
unified ones) and on each dedicated one. -/
structure Room (floor : Option Floor) (budget : Budget) (needs : Needs) (K : List GpuBudget) :
    Prop where
  memory : growMemory floor (needs.memoryGb + unifiedIn K * needs.vramGb) ≤ budget.memoryGb
  vram : ∀ gpu ∈ K, gpu.unified = false → growVram floor gpu.key needs.vramGb ≤ gpu.freeGb

/-- The rule as the code applies it. -/
def ruleFits (floor : Option Floor) (budget : Budget) (needs : Needs) (gpuKeys : List String) :
    Bool :=
  floor.elim (freshFits budget needs gpuKeys) (overFits budget needs gpuKeys)

section Rule
variable {fl : Option Floor} {bud : Budget} {nd : Needs} {K : List GpuBudget}

/-- A set of the node's GPUs. -/
structure GpusOf (budget : Budget) (K : List GpuBudget) : Prop where
  mem : ∀ gpu ∈ K, gpu ∈ budget.gpus
  nodup : (K.map (·.key)).Nodup

theorem GpusOf.find (hK : GpusOf bud K) : ∀ gpu ∈ K, findGpu bud gpu.key = some gpu :=
  fun gpu hg => findGpu_of_mem (hK.mem gpu hg)

/-- The GPUs of a node are determined by their keys. -/
theorem eq_of_key {g g' : GpuBudget} (hg : g ∈ bud.gpus) (hg' : g' ∈ bud.gpus)
    (hk : g.key = g'.key) : g = g' := by
  have h := findGpu_of_mem hg
  rw [hk, findGpu_of_mem hg'] at h
  exact (Option.some.inj h).symm

theorem GpusOf.mem_keys (hK : GpusOf bud K) (hp : gpu ∈ bud.gpus) :
    gpu.key ∈ K.map (·.key) ↔ gpu ∈ K := by
  constructor
  · intro h
    obtain ⟨g, hg, hk⟩ := mem_map.mp h
    exact eq_of_key hp (hK.mem g hg) hk.symm ▸ hg
  · exact fun h => mem_map.mpr ⟨gpu, h, rfl⟩

theorem unifiedCount_eq (hK : GpusOf bud K) :
    unifiedCount bud (K.map (·.key)) = unifiedIn K := by
  have hgp : bud.gpus.Nodup := List.Nodup.of_map _ bud.keys_nodup
  have hKnodup : K.Nodup := List.Nodup.of_map _ hK.nodup
  refine ((perm_ext_iff_of_nodup (hgp.filter _) (hKnodup.filter _)).mpr fun gpu => ?_).length_eq
  simp only [mem_filter, Bool.and_eq_true, contains_iff_mem]
  constructor
  · rintro ⟨hg, hu, hk⟩
    exact ⟨(hK.mem_keys hg).mp hk, hu⟩
  · rintro ⟨hg, hu⟩
    exact ⟨hK.mem gpu hg, hu, (hK.mem_keys (hK.mem gpu hg)).mpr hg⟩

theorem takeOf_memoryGb (hK : GpusOf bud K) :
    (takeOf fl bud nd (K.map (·.key))).memoryGb =
      growMemory fl (nd.memoryGb + unifiedIn K * nd.vramGb) := by
  have hu : (usageOf bud nd (K.map (·.key))).memoryGb = _ :=
    (foldl_addUsage nd hK.find hK.nodup ⟨nd.memoryGb, .empty⟩).1
  cases fl with
  | none => exact hu
  | some f =>
    simp only [takeOf, growMemory, Option.elim_some, overlapGrowth_memoryGb]
    rw [hu]

theorem takeOf_vram (hK : GpusOf bud K) (key : String) :
    (takeOf fl bud nd (K.map (·.key))).vram key =
      growVram fl key (if DedicatedIn K key then (nd.vramGb : Int) else 0) := by
  have hu : (usageOf bud nd (K.map (·.key))).vram key =
      if DedicatedIn K key then (nd.vramGb : Int) else 0 := by
    simpa [usageOf, ClaimUsage.vram] using
      (foldl_addUsage nd hK.find hK.nodup ⟨nd.memoryGb, .empty⟩).2.1 key
  cases fl with
  | none => exact hu
  | some f =>
    have hnn : 0 ≤ (usageOf bud nd (K.map (·.key))).vram key := by
      rw [hu]
      split <;> omega
    simp only [takeOf, growVram, Option.elim_some]
    rw [overlapGrowth_vram _ (f.placed_nonneg key) hnn, hu]

theorem mem_keys_takeOf {key : String} (hK : GpusOf bud K) (h : DedicatedIn K key) :
    key ∈ (takeOf fl bud nd (K.map (·.key))).gpus.keys := by
  have hu : key ∈ (usageOf bud nd (K.map (·.key))).gpus.keys :=
    (foldl_addUsage nd hK.find hK.nodup ⟨nd.memoryGb, .empty⟩).2.2 key (.inr h)
  cases fl with
  | none => exact hu
  | some f => exact mem_keys_overlapGrowth hu

theorem dedicatedIn_iff (hK : GpusOf bud K) (hp : gpu ∈ K) :
    DedicatedIn K gpu.key ↔ gpu.unified = false := by
  constructor
  · rintro ⟨g, hg, hd, hk⟩
    exact eq_of_key (hK.mem g hg) (hK.mem gpu hp) hk ▸ hd
  · exact fun h => ⟨gpu, hp, h, rfl⟩

/-- What the rule asks of one GPU of the set.  Old claims may name a unified GPU, but the claim
adds nothing to it. -/
theorem room_gpu_iff (hK : GpusOf bud K) (hg : gpu ∈ K) :
    (gpu.key ∈ (takeOf fl bud nd (K.map (·.key))).gpus.keys →
      (takeOf fl bud nd (K.map (·.key))).vram gpu.key ≤ gpu.freeGb) ↔
      (gpu.unified = false → growVram fl gpu.key nd.vramGb ≤ gpu.freeGb) := by
  rw [takeOf_vram hK]
  simp only [dedicatedIn_iff hK hg]
  cases hu : gpu.unified with
  | false => simp [mem_keys_takeOf hK ((dedicatedIn_iff hK hg).mpr hu)]
  | true => simp [growVram_zero, gpu.shared hu]

/-- The fit over a floor is the rule's. -/
theorem overFits_iff (hK : GpusOf bud K) {f : Floor} :
    overFits bud nd (K.map (·.key)) f = true ↔
      (takeOf (some f) bud nd (K.map (·.key))).memoryGb ≤ bud.memoryGb ∧
        ∀ gpu ∈ K, gpu.key ∈ (takeOf (some f) bud nd (K.map (·.key))).gpus.keys →
          (takeOf (some f) bud nd (K.map (·.key))).vram gpu.key ≤ gpu.freeGb := by
  unfold overFits grows
  simp only [takeOf, Option.elim_some]
  simp only [Bool.and_eq_true, decide_eq_true_eq, all_eq_true, Bool.or_eq_true,
    Bool.not_eq_true', contains_eq_mem, decide_eq_false_iff_not, and_congr_right_iff]
  refine fun _ => ⟨fun h gpu hg hk => ?_, fun h e he => ?_⟩
  · obtain ⟨gb, hgb⟩ := mem_keys.mp hk
    rcases h (gpu.key, gb) (get_eq_some.mp hgb) with ho | hf
    · exact absurd (mem_map.mpr ⟨gpu, hg, rfl⟩) ho
    · simpa [hK.find gpu hg, ClaimUsage.vram, hgb] using hf
  · by_cases hin : e.1 ∈ K.map (·.key)
    · obtain ⟨gpu, hg, hk⟩ := mem_map.mp hin
      have ht := get_eq_some.mpr he
      have hle := h gpu hg (mem_keys.mpr ⟨e.2, hk ▸ ht⟩)
      right
      rw [← hk, hK.find gpu hg]
      simpa [ClaimUsage.vram, hk, ht] using hle
    · exact .inl hin

/-- The fit of a fresh claim is the rule's. -/
theorem freshFits_iff (hK : GpusOf bud K) :
    freshFits bud nd (K.map (·.key)) = true ↔ Room none bud nd K := by
  unfold freshFits
  rw [unifiedCount_eq hK]
  simp only [Bool.and_eq_true, decide_eq_true_eq, all_eq_true, mem_map]
  constructor
  · rintro ⟨hm, ha⟩
    refine ⟨hm, fun gpu hg hd => ?_⟩
    have h := ha gpu.key ⟨gpu, hg, rfl⟩
    simpa [hK.find gpu hg, hd, growVram] using h
  · rintro ⟨hm, hvr⟩
    refine ⟨hm, ?_⟩
    rintro key ⟨gpu, hg, rfl⟩
    rw [hK.find gpu hg]
    cases hu : gpu.unified with
    | true => simp [hu]
    | false => simpa [hu, growVram] using hvr gpu hg hu

/-- **The code applies the declared rule.** -/
theorem ruleFits_iff (hK : GpusOf bud K) :
    ruleFits fl bud nd (K.map (·.key)) = true ↔ Room fl bud nd K := by
  cases fl with
  | none => exact freshFits_iff hK
  | some f =>
    show overFits bud nd (K.map (·.key)) f = true ↔ _
    rw [overFits_iff hK, takeOf_memoryGb hK]
    constructor
    · rintro ⟨hm, ha⟩
      exact ⟨hm, fun gpu h => (room_gpu_iff hK h).mp (ha gpu h)⟩
    · rintro ⟨hm, hvr⟩
      exact ⟨hm, fun gpu h => (room_gpu_iff hK h).mpr (hvr gpu h)⟩

theorem Room.perm {K' : List GpuBudget} (h : Room fl bud nd K) (hpm : K.Perm K') :
    Room fl bud nd K' where
  memory := by
    have hc : unifiedIn K' = unifiedIn K := ((hpm.filter _).length_eq).symm
    rw [hc]
    exact h.memory
  vram gpu hgpu := h.vram gpu (hpm.mem_iff.mpr hgpu)

end Rule

end ModelProxy.Placement
