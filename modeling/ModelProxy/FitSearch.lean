import ModelProxy.FitRule

/-! # Fits are sound and complete

The search filters GPUs one at a time, sorts them, and tries the sets of one vendor after
the other.  A GPU of a set with room always passes the filter, so a search that may try every
set misses none.
-/
namespace ModelProxy.Placement
open List

/-! ## Vendors -/

section
variable {srt : List GpuBudget} {count : ℕ} {feas : List GpuBudget → Bool}

/-- A set found is of one vendor and feasible. -/
theorem vendorsFeasible_sound : ∀ {vds : List GpuVendor} {P : List GpuBudget},
    vendorsFeasible srt count feas vds = some P →
      ∃ vendor, P.Sublist (srt.filter fun gpu => gpu.vendor = vendor) ∧ P.length = count ∧
        feas P = true
  | [], _, h => by simp [vendorsFeasible] at h
  | vendor :: vds, P, h => by
    simp only [vendorsFeasible] at h
    split at h
    · exact vendorsFeasible_sound h
    next hc =>
    split at h
    next picked hfd =>
      cases h
      obtain ⟨ha, hs, hl⟩ := search_sound (Nat.le_of_not_lt hc) hfd
      exact ⟨vendor, hs, hl, ha⟩
    next => exact vendorsFeasible_sound h

/-- Where no vendor has a set, none is feasible. -/
theorem vendorsFeasible_complete (hf : ∀ vendor : GpuVendor,
      (srt.filter fun gpu => gpu.vendor = vendor).length.choose count ≤ gpuSetsMax) :
    ∀ {vds : List GpuVendor}, vendorsFeasible srt count feas vds = none → ∀ vendor ∈ vds,
      ∀ {P : List GpuBudget}, P.Sublist (srt.filter fun gpu => gpu.vendor = vendor) →
        P.length = count → feas P = false
  | [], _, _, hm, _, _, _ => absurd hm not_mem_nil
  | first :: vds, h, vendor, hm, P, hP, hl => by
    simp only [vendorsFeasible] at h
    split at h
    next hh =>
      rcases mem_cons.mp hm with rfl | hm
      · have := hP.length_le
        omega
      · exact vendorsFeasible_complete hf h vendor hm hP hl
    next =>
    split at h
    · cases h
    next hno =>
    rcases mem_cons.mp hm with rfl | hm
    · exact search_complete (hf vendor) hno hP hl
    · exact vendorsFeasible_complete hf h vendor hm hP hl

end

/-! ## Picks -/

/-- The GPUs a pick searches. -/
def fittingFor (floor : Option Floor) (budget : Budget) (needs : Needs) : List GpuBudget :=
  match floor with
  | some floor => fittingGpusOver budget needs floor
  | none => fittingGpus budget needs

/-- A GPU of its own has room for the claim. -/
def Passes (floor : Option Floor) (budget : Budget) (needs : Needs) (gpu : GpuBudget) : Prop :=
  if gpu.unified then growMemory floor (needs.memoryGb + needs.vramGb) ≤ budget.memoryGb
  else growVram floor gpu.key needs.vramGb ≤ gpu.freeGb

/-- A set of the node's GPUs, of one vendor the claim allows, with room for it. -/
structure Accommodates (floor : Option Floor) (budget : Budget) (needs : Needs)
    (K : List GpuBudget) : Prop where
  gpus : GpusOf budget K
  count : K.length = needs.gpuCount
  allowed : ∀ gpu ∈ K, vendorAllows needs gpu = true
  oneVendor : ∀ gpu ∈ K, ∀ gpu' ∈ K, gpu.vendor = gpu'.vendor
  room : Room floor budget needs K

/-- Some set of GPUs accommodates the claim. -/
def Feasible (floor : Option Floor) (budget : Budget) (needs : Needs) : Prop :=
  ∃ K, Accommodates floor budget needs K

/-- No vendor has more sets of fitting GPUs than a search tries. -/
def FewSets (floor : Option Floor) (budget : Budget) (needs : Needs) : Prop :=
  ∀ vendor : GpuVendor, ((fittingFor floor budget needs).filter fun gpu =>
    gpu.vendor = vendor).length.choose needs.gpuCount ≤ gpuSetsMax

variable {gpu : GpuBudget} {keys : List String} {take : ClaimUsage} {trial : Needs}
  {floor : Option Floor} {budget : Budget} {nd : Needs}

section Pick
variable {K : List GpuBudget}

theorem passes_fresh (gpu : GpuBudget) :
    (nd.vramGb : Int) ≤ gpuFreeGb budget gpu nd.memoryGb ↔ Passes none budget nd gpu := by
  unfold gpuFreeGb Passes growMemory growVram
  cases gpu.unified with
  | true => simp; omega
  | false => simp

theorem passes_over {f : Floor} (gpu : GpuBudget) :
    grows (gpuGrowth nd f gpu) (if gpu.unified then budget.memoryGb else gpu.freeGb) = true ↔
      Passes (some f) budget nd gpu := by
  unfold grows gpuGrowth Passes growMemory growVram
  cases gpu.unified with
  | true => simp [overlapGrowth_memoryGb]
  | false =>
    have hae : (ClaimUsage.mk 0 (OrderedMap.empty.set gpu.key (nd.vramGb : Int))).vram
        gpu.key = nd.vramGb := by simp [ClaimUsage.vram]
    have hnn := hae.symm ▸ Int.natCast_nonneg nd.vramGb
    have hgt := overlapGrowth_vram f.floor (f.placed_nonneg gpu.key) hnn
    rw [hae] at hgt
    simp [hgt]

theorem mem_fittingFor : gpu ∈ fittingFor floor budget nd ↔
    gpu ∈ budget.gpus ∧ vendorAllows nd gpu = true ∧ Passes floor budget nd gpu := by
  cases floor with
  | none => simp [fittingFor, fittingGpus, passes_fresh]
  | some f => simp [fittingFor, fittingGpusOver, passes_over]

theorem fittingFor_nodup : ((fittingFor floor budget nd).map (·.key)).Nodup := by
  cases floor <;> exact ((Comparator.sort_perm _ _).map _).nodup_iff.mpr
    (budget.keys_nodup.sublist (filter_sublist.map _))

theorem pickFor_eq (hc : nd.gpuCount ≠ 0) :
    pickFor floor budget nd = (oneVendorFeasible (fittingFor floor budget nd) nd.gpuCount
      fun picked => ruleFits floor budget nd (picked.map (·.key))).map
        fun chosen => chosen.map (·.key) := by
  cases floor <;> simp [pickFor, pickGpus, pickGpusOver, hc, fittingFor, ruleFits]

/-- A GPU of a set with room has room of its own. -/
theorem Room.passes (h : Room floor budget nd K) (hg : gpu ∈ K) : Passes floor budget nd gpu := by
  unfold Passes
  split
  next hu =>
    have ho : 1 ≤ unifiedIn K :=
      length_pos_of_mem (mem_filter.mpr ⟨hg, hu⟩)
    refine le_trans (growMemory_mono ?_) h.memory
    have hm : (1 : Int) * nd.vramGb ≤ unifiedIn K * nd.vramGb := by
      refine Int.mul_le_mul_of_nonneg_right ?_ (Int.natCast_nonneg _)
      exact_mod_cast ho
    omega
  next hd => exact h.vram gpu hg (by simpa using hd)

theorem Accommodates.perm {K' : List GpuBudget} (h : Accommodates floor budget nd K)
    (hpm : K.Perm K') : Accommodates floor budget nd K' where
  gpus := ⟨fun gpu hg => h.gpus.mem gpu (hpm.mem_iff.mpr hg), (hpm.map _).nodup_iff.mp h.gpus.nodup⟩
  count := hpm.length_eq ▸ h.count
  allowed gpu hg := h.allowed gpu (hpm.mem_iff.mpr hg)
  oneVendor gpu hg gpu' hg' :=
    h.oneVendor gpu (hpm.mem_iff.mpr hg) gpu' (hpm.mem_iff.mpr hg')
  room := h.room.perm hpm

theorem pickFor_zero (hc : nd.gpuCount = 0) : pickFor floor budget nd = some [] := by
  cases floor <;> simp [pickFor, pickGpus, pickGpusOver, hc]

/-- A pick returns GPUs with room. -/
theorem pickFor_sound (hc : nd.gpuCount ≠ 0) (h : pickFor floor budget nd = some keys) :
    ∃ K, keys = K.map (·.key) ∧ Accommodates floor budget nd K := by
  rw [pickFor_eq hc] at h
  obtain ⟨K, hfd, rfl⟩ := Option.map_eq_some_iff.mp h
  obtain ⟨vendor, hs, hl, ha⟩ := vendorsFeasible_sound hfd
  have hm : ∀ gpu ∈ K, gpu ∈ fittingFor floor budget nd ∧ gpu.vendor = vendor :=
    fun gpu hg => by simpa using mem_filter.mp (hs.mem hg)
  have hf := fun gpu hg => mem_fittingFor.mp (hm gpu hg).1
  have hgp : GpusOf budget K :=
    ⟨fun gpu hg => (hf gpu hg).1, fittingFor_nodup.sublist ((hs.trans filter_sublist).map _)⟩
  exact ⟨K, rfl, hgp, hl, fun gpu hg => (hf gpu hg).2.1,
    fun gpu hg gpu' hg' => (hm gpu hg).2.trans (hm gpu' hg').2.symm, (ruleFits_iff hgp).mp ha⟩

/-- **A pick that may try every set finds GPUs whenever some have room.** -/
theorem pickFor_complete (hfew : FewSets floor budget nd) (h : Feasible floor budget nd) :
    pickFor floor budget nd ≠ none := by
  by_cases hc : nd.gpuCount = 0
  · rw [pickFor_zero hc]
    simp
  obtain ⟨K, hK⟩ := h
  intro hno
  rw [pickFor_eq hc, Option.map_eq_none_iff] at hno
  -- the set in the order the search has the GPUs
  obtain ⟨first, hf⟩ := exists_mem_of_length_pos (by rw [hK.count]; omega : 0 < K.length)
  have hin : ∀ gpu ∈ K, gpu ∈ fittingFor floor budget nd := fun gpu hg =>
    mem_fittingFor.mpr ⟨hK.gpus.mem gpu hg, hK.allowed gpu hg, hK.room.passes hg⟩
  have hn : ((fittingFor floor budget nd).map (·.key)).Nodup := fittingFor_nodup
  unfold FewSets at hfew
  generalize fittingFor floor budget nd = srt at *
  have hpm : K.Perm (srt.filter (· ∈ K)) := by
    refine (perm_ext_iff_of_nodup (List.Nodup.of_map _ hK.gpus.nodup)
      ((List.Nodup.of_map _ hn).filter _)).mpr fun gpu => ?_
    simp only [mem_filter, decide_eq_true_eq]
    exact ⟨fun hg => ⟨hin gpu hg, hg⟩, fun hg => hg.2⟩
  have hP := hK.perm hpm
  have hs : (srt.filter (· ∈ K)).Sublist (srt.filter fun gpu => gpu.vendor = first.vendor) := by
    refine monotone_filter_right srt fun gpu hg => ?_
    simp only [decide_eq_true_eq] at hg ⊢
    exact hK.oneVendor gpu hg first hf
  have hv : first.vendor ∈ (srt.map (·.vendor)).eraseDups :=
    mem_eraseDups.mpr (mem_map.mpr ⟨first, hin first hf, rfl⟩)
  have hr := vendorsFeasible_complete hfew hno first.vendor hv hs hP.count
  rw [(ruleFits_iff hP.gpus).mpr hP.room] at hr
  cases hr

theorem picked_accommodates (hpk : pickFor floor budget nd = some keys)
    (hrl : ruleFits floor budget nd keys = true) :
    ∃ K, keys = K.map (·.key) ∧ Accommodates floor budget nd K := by
  by_cases hc : nd.gpuCount = 0
  · rw [pickFor_zero hc] at hpk
    cases hpk
    have hgp : GpusOf budget [] := ⟨by simp, by simp⟩
    exact ⟨[], rfl, hgp, hc.symm, by simp, by simp, (ruleFits_iff hgp).mp hrl⟩
  · exact pickFor_sound hc hpk

end Pick

/-! ## Fits -/

/-- The fit of one trial of needs. -/
def fitNeeds (node : PlacementNode) (budget : Budget) (wanted : RankPort) (needsPort : Bool)
    (floor : Option Floor) (needs : Needs) : Fit :=
  match floor with
  | some floor => fitOver node budget needs wanted needsPort floor
  | none => fitFresh node budget needs wanted needsPort

section Fit
variable {node : PlacementNode} {wanted : RankPort} {needsPort : Bool} {fitted : Fitted}
  {resources : RuntimeResource} {reason : FitReason}

theorem withPort_ok (h : withPort node budget wanted needsPort keys nd take = .ok fitted) :
    fitted.gpuKeys = keys := by
  unfold withPort at h
  split at h
  · split at h
    · cases h
    · cases h
      rfl
  · cases h
    rfl

theorem withPort_error (h : withPort node budget wanted needsPort keys nd take = .error reason) :
    reason ≠ .notEnoughMemory := by
  unfold withPort at h
  split at h
  · split at h
    · cases h
      split <;> simp
    · cases h
  · cases h

/-- One trial: room on the picked GPUs, then a port. -/
theorem fitNeeds_value (node : PlacementNode) (budget : Budget) (wanted : RankPort)
    (needsPort : Bool) (floor : Option Floor) (nd : Needs) :
    fitNeeds node budget wanted needsPort floor nd = .error .notEnoughMemory ∨
      ∃ keys, pickFor floor budget nd = some keys ∧ ruleFits floor budget nd keys = true ∧
        fitNeeds node budget wanted needsPort floor nd =
          withPort node budget wanted needsPort keys nd (takeOf floor budget nd keys) := by
  cases floor with
  | none =>
    simp only [fitNeeds, fitFresh, pickFor]
    split
    · exact .inl rfl
    split
    · exact .inl rfl
    next keys hpk =>
      split
      next hrl => exact .inr ⟨keys, hpk, hrl, rfl⟩
      · exact .inl rfl
  | some f =>
    simp only [fitNeeds, fitOver, pickFor]
    split
    · exact .inl rfl
    next keys hpk =>
      split
      next hrl => exact .inr ⟨keys, hpk, hrl, rfl⟩
      · exact .inl rfl

/-- A trial that may try every set fits on some GPUs whenever there are any. -/
theorem fitNeeds_complete (hfew : FewSets floor budget nd) (h : Feasible floor budget nd) :
    ∃ gpuKeys take, fitNeeds node budget wanted needsPort floor nd =
      withPort node budget wanted needsPort gpuKeys nd take := by
  obtain ⟨gpuKeys, hpk⟩ := Option.ne_none_iff_exists'.mp (pickFor_complete hfew h)
  obtain ⟨K, hK⟩ := h
  have hrl : ruleFits floor budget nd gpuKeys = true := by
    by_cases hc : nd.gpuCount = 0
    · rw [pickFor_zero hc] at hpk
      cases hpk
      obtain rfl : K = [] := length_eq_zero_iff.mp (hK.count.trans hc)
      exact (ruleFits_iff hK.gpus).mpr hK.room
    · obtain ⟨K, rfl, hK⟩ := pickFor_sound hc hpk
      exact (ruleFits_iff hK.gpus).mpr hK.room
  refine ⟨gpuKeys, takeOf floor budget nd gpuKeys, ?_⟩
  cases floor with
  | none =>
    have hm : (nd.memoryGb : Int) ≤ budget.memoryGb := by
      refine le_trans ?_ hK.room.memory
      have := Int.mul_nonneg (Int.natCast_nonneg (unifiedIn K)) (Int.natCast_nonneg nd.vramGb)
      simp only [growMemory, Option.elim_none]
      omega
    have hpk : pickGpus budget nd = some gpuKeys := hpk
    have hft : freshFits budget nd gpuKeys = true := hrl
    simp only [fitNeeds, fitFresh, not_lt.mpr hm, if_false, hpk, hft, if_true]
    rfl
  | some f =>
    have hpk : pickGpusOver budget nd f = some gpuKeys := hpk
    have hft : overFits budget nd gpuKeys f = true := hrl
    simp only [fitNeeds, fitOver, hpk, hft, if_true]
    rfl

/-- A trial asks for the same amounts. -/
theorem mem_vendorTrials (h : trial ∈ vendorTrials budget nd) :
    trial = nd ∨ nd.vendor = none ∧ ∃ vendor, trial = { nd with vendor := some vendor } := by
  unfold vendorTrials at h
  split at h
  · exact .inl (mem_singleton.mp h)
  next hop =>
  simp only [Bool.or_eq_true, not_or, Option.isSome_iff_ne_none, ne_eq, not_not,
    decide_eq_true_eq] at hop
  rcases mem_cons.mp h with rfl | h
  · exact .inl rfl
  · obtain ⟨vendor, -, rfl⟩ := mem_map.mp h
    exact .inr ⟨hop.1, vendor, rfl⟩

theorem vendorTrials_head (budget : Budget) (nd : Needs) :
    ∃ rest, vendorTrials budget nd = nd :: rest := by
  unfold vendorTrials
  split
  · exact ⟨[], rfl⟩
  · exact ⟨_, rfl⟩

/-- Pinning a vendor only asks for more. -/
theorem Accommodates.unpin {K : List GpuBudget} (h : Accommodates floor budget trial K)
    (ht : trial = nd ∨ nd.vendor = none ∧ ∃ vendor, trial = { nd with vendor := some vendor }) :
    Accommodates floor budget nd K := by
  rcases ht with rfl | ⟨hv, vendor, rfl⟩
  · exact h
  · exact ⟨h.gpus, h.count, fun gpu _ => by simp [vendorAllows, hv], h.oneVendor,
      ⟨h.room.memory, h.room.vram⟩⟩

/-- The trials end in a refusal for room, or with a port for GPUs one of them has room on. -/
theorem fitTrials_value (trials : List Needs) :
    fitTrials (fitNeeds node budget wanted needsPort floor) trials = .error .notEnoughMemory ∨
      ∃ trial ∈ trials, ∃ K take, Accommodates floor budget trial K ∧
        fitTrials (fitNeeds node budget wanted needsPort floor) trials =
          withPort node budget wanted needsPort (K.map (·.key)) trial take := by
  induction trials with
  | nil => exact .inl rfl
  | cons trial trials ih =>
    simp only [fitTrials]
    split
    · refine ih.imp_right ?_
      rintro ⟨nd, hm, K, take, hK, hv⟩
      exact ⟨nd, mem_cons_of_mem _ hm, K, take, hK, hv⟩
    next hne =>
    rcases fitNeeds_value node budget wanted needsPort floor trial with hno | ⟨keys, hpk, hrl, hv⟩
    · exact absurd hno hne
    · obtain ⟨K, rfl, hK⟩ := picked_accommodates hpk hrl
      exact .inr ⟨trial, mem_cons_self, K, _, hK, hv⟩

/-- **Where there is room, only a port can be missing.** -/
theorem fit_complete (hfew : FewSets floor budget resources.needs)
    (h : Feasible floor budget resources.needs) :
    fit node budget resources wanted needsPort floor ≠ .error .notEnoughMemory := by
  obtain ⟨rest, ht⟩ := vendorTrials_head budget resources.needs
  obtain ⟨keys, take, hv⟩ := @fitNeeds_complete _ _ _ node wanted needsPort hfew h
  change fitTrials (fitNeeds node budget wanted needsPort floor) _ ≠ _
  rw [ht]
  simp only [fitTrials]
  split
  next he =>
    rw [hv] at he
    exact absurd rfl (withPort_error he)
  next hne => exact fun he => hne he

/-- **The fit is sound and complete**: it refuses for room exactly when no set of GPUs
accommodates the claim, and what it returns accommodates it. -/
theorem fit_decides (hfew : FewSets floor budget resources.needs) :
    (fit node budget resources wanted needsPort floor = .error .notEnoughMemory ↔
      ¬ Feasible floor budget resources.needs) ∧
    ∀ fitted, fit node budget resources wanted needsPort floor = .ok fitted →
      ∃ K, fitted.gpuKeys = K.map (·.key) ∧ Accommodates floor budget resources.needs K := by
  have hv := @fitTrials_value floor budget node wanted needsPort
    (vendorTrials budget resources.needs)
  change fit node budget resources wanted needsPort floor = _ ∨ _ at hv
  refine ⟨⟨fun hr hro => fit_complete hfew hro hr, fun hf => ?_⟩, fun fitted ho => ?_⟩
  · refine hv.resolve_right ?_
    rintro ⟨trial, hm, K, -, hK, -⟩
    exact hf ⟨K, hK.unpin (mem_vendorTrials hm)⟩
  · rcases hv with hv | ⟨trial, hm, K, take, hK, hv⟩
    · rw [hv] at ho
      cases ho
    · exact ⟨K, withPort_ok (hv.symm.trans ho), hK.unpin (mem_vendorTrials hm)⟩

/-- A node with two dedicated GPUs and a unified one. -/
def mixedNode : PlacementNode :=
  ⟨(8000, 8009), 1000, [⟨"nvidia:1", .nvidia, 800, false⟩, ⟨"nvidia:0", .nvidia, 800, false⟩,
    ⟨"apple:0", .apple, 0, true⟩], by decide⟩

/-- What an old claim holds there. -/
def oldUsage : ClaimUsage := usageOf mixedNode.budget ⟨100, 1, 600, none⟩ ["nvidia:0"]

/-- The node with the old claim held. -/
def heldBudget : Budget := applyUsage mixedNode.budget oldUsage 1 (usageOf_dedicated _ _ _)

/-- A restart's claim grows on the GPU its old claim holds, where a new one has no room; and one
for two GPUs is refused, as no two of them have room. -/
theorem fit_decides_restart :
    let floor := heldFloor [oldUsage] ["nvidia:0"]
    (fit mixedNode heldBudget (.discrete 1 700 none none) anyPort true (some floor) =
        .ok ⟨8000, ["nvidia:0"], ⟨0, 1, 700, none⟩, ⟨0, OrderedMap.empty.set "nvidia:0" 100⟩⟩ ∧
      ∃ K, ["nvidia:0"] = K.map (·.key) ∧
        Accommodates (some floor) heldBudget ⟨0, 1, 700, none⟩ K) ∧
    fit mixedNode heldBudget (.discrete 2 900 none none) anyPort true (some floor) =
        .error .notEnoughMemory ∧ ¬ Feasible (some floor) heldBudget ⟨0, 2, 900, none⟩ := by
  intro floor
  have ho := @fit_decides (some floor) heldBudget mixedNode anyPort true
    (.discrete 1 700 none none) fun v => by cases v <;> decide +kernel
  have ht := @fit_decides (some floor) heldBudget mixedNode anyPort true
    (.discrete 2 900 none none) fun v => by cases v <;> decide +kernel
  have hk : fit mixedNode heldBudget (.discrete 1 700 none none) anyPort true (some floor) =
      .ok ⟨8000, ["nvidia:0"], ⟨0, 1, 700, none⟩, ⟨0, OrderedMap.empty.set "nvidia:0" 100⟩⟩ := by
    decide +kernel
  have hr : fit mixedNode heldBudget (.discrete 2 900 none none) anyPort true (some floor) =
      .error .notEnoughMemory := by decide +kernel
  exact ⟨⟨hk, ho.2 _ hk⟩, hr, ht.1.mp hr⟩

end Fit

end ModelProxy.Placement
